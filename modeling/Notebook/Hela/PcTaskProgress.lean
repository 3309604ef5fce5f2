import Notebook.Hela.DoHelaPcTask

/-!
# The progress of a pc task

Between two handlers a pc task waits: for a retry, for its turn, or for the answer to a request. It
is about to read a part or to write a part to a target, and all parts before that one are copied.
Nothing else can happen, except that a handler calls a connection that it did not get.

## Main definitions

* `Cursor.Reading`, `Cursor.Writing`, `Cursor.Copied` — how far the copy is.
* `DoHelaPcTask.Inv` — the situations of a handle between two handlers.

## Main results

* `DoHelaPcTask.inv_step` — every handler leads from one situation of the handle to another.
* `DoHelaPcTask.inv_of_exec` — after every run the handle is in one of them.
-/

open Container Interleaving List

namespace Hela

/-! ### What comes next -/

/-- What a handle waits for. -/
inductive Continuation
  | retry | pending | request (r : Request)

variable {r : Request} {id : ℕ}

namespace Agenda

/-- Nothing is set up, and no result has been posted. -/
structure Quiet (a : Agenda) : Prop where
  posted : a.posted = []
  timers : a.timers = []
  requests : a.requests = []

/-- Nothing is set up, and no callback would have anything to do. -/
structure Idle (a : Agenda) : Prop extends Quiet a where
  retryRead : a.retryRead = false
  retryWrite : a.retryWrite = false
  pendingRead : a.pendingRead = false
  pendingWrite : a.pendingWrite = false

/-- The only thing that is set up is a timer. -/
structure Armed (a : Agenda) (callback : Callback) : Prop where
  posted : a.posted = []
  requests : a.requests = []
  timers : ∃ id, a.timers = [(id, callback)]

/-- The handle waits, to go on with a read, or with a write if `write` is set. -/
def Next (a : Agenda) (write : Bool) : Continuation → Prop
  | .retry => a.Armed .retry ∧ a.retryRead = !write ∧ a.retryWrite = write ∧
      a.pendingRead = false ∧ a.pendingWrite = false
  | .pending => a.Armed .pending ∧ a.retryRead = false ∧ a.retryWrite = false ∧
      a.pendingRead = !write ∧ a.pendingWrite = write
  | .request r => Idle { a with requests := [] } ∧ a.requests = [r]

/-- The result has been posted. -/
structure Finished (a : Agenda) (retcode : Retcode) : Prop where
  posted : a.posted = [retcode]
  timers : a.timers = []
  requests : a.requests = []

variable {a : Agenda} {write : Bool} {next : Continuation}

theorem Next.of_mem_requests (h : a.Next write next) (hr : r ∈ a.requests) :
    next = .request r ∧ Idle { a with requests := a.requests.erase r } := by
  cases next with
  | retry | pending => simp [h.1.requests] at hr
  | request r' =>
    obtain ⟨hidle, hrequests⟩ := h
    rw [hrequests, mem_singleton] at hr
    subst hr
    refine ⟨rfl, ?_⟩
    rw [hrequests, erase_cons_head]
    exact hidle

theorem Next.of_find_timers (h : a.Next write next) {t : ℕ × Callback}
    (ht : (a.timers.find? fun t => t.1 = id) = some t) :
    (a.timers.filter fun t => t.1 ≠ id) = [] ∧
      (t.2 = .retry ∧ next = .retry ∨ t.2 = .pending ∧ next = .pending) := by
  have hmem := mem_of_find?_eq_some ht
  have hid := find?_some ht
  cases next with
  | retry | pending =>
    obtain ⟨id', htimers⟩ := h.1.timers
    rw [htimers, mem_singleton] at hmem
    subst hmem
    exact ⟨by simpa [htimers] using hid, by simp⟩
  | request r =>
    have htimers : a.timers = [] := h.1.timers
    simp [htimers] at hmem

theorem Next.posted (h : a.Next write next) : a.posted = [] := by
  cases next with
  | retry | pending | request => exact h.1.posted

end Agenda

/-! ### How far the copy is -/

namespace PcJob

variable (job : PcJob)

/-- The first sector of the `k`-th part. -/
def partStart (k : ℕ) : ℕ := job.firstSector + k * job.sectorNum

/-- The request that reads the part at a sector. -/
def readRequest (sector : ℕ) : Request :=
  if job.srcType = .koala then job.buildKoalaReadRequest sector job.sectorNum
  else job.buildChunkReadRequest sector

/-- The request that writes the part at a sector to a target. -/
def writeRequest (i sector : ℕ) : Request :=
  job.buildChunkWriteRequest i sector (job.readRequest sector)

theorem partStart_succ (k : ℕ) : job.partStart (k + 1) = job.partStart k + job.sectorNum := by
  rw [partStart, partStart, add_mul, one_mul, add_assoc]

theorem firstSector_lt : job.firstSector < 2 ^ 55 :=
  Nat.div_lt_of_lt_mul (Nat.mod_lt _ (by decide))

theorem endSector_lt : job.endSector < 2 ^ 55 :=
  Nat.div_lt_of_lt_mul (Nat.mod_lt _ (by decide))

theorem sectorNum_lt : job.sectorNum < 2 ^ 23 :=
  Nat.div_lt_of_lt_mul job.operateSize_lt

theorem partStart_lt {k : ℕ} (hmore : 0 < k → job.partStart k < job.endSector) :
    job.partStart k < 2 ^ 55 := by
  rcases eq_zero_or_pos k with rfl | hk
  · simpa [partStart] using job.firstSector_lt
  · exact (hmore hk).trans job.endSector_lt

end PcJob

/-- The request is not a write. -/
def Request.IsRead : Request → Prop
  | .readKoala .. => True
  | .readChunk .. => True
  | .write .. => False

namespace Cursor

variable {job : PcJob} {c c' : Cursor} {k i : ℕ}

/-- The part at a sector has been written to the `i`-th target, if that is not offline. -/
def Served (job : PcJob) (c : Cursor) (sector i : ℕ) : Prop :=
  ∀ t ∈ c.infoList[i]?, t.offline = true ∨ job.writeRequest i sector ∈ c.succeeded

/-- The part at a sector is empty or has been copied. -/
def PartDone (job : PcJob) (c : Cursor) (sector : ℕ) : Prop :=
  job.readRequest sector ∈ c.empties ∨
    job.readRequest sector ∈ c.succeeded ∧ ∀ i, c.Served job sector i

/-- Only the first `k` parts have been read. -/
def ReadUpTo (job : PcJob) (c : Cursor) (k : ℕ) : Prop :=
  ∀ r, r ∈ c.succeeded ∨ r ∈ c.empties → r.IsRead → ∃ j < k, r = job.readRequest (job.partStart j)

/-- The `k`-th part is to be read. -/
structure Reading (job : PcJob) (c : Cursor) (k : ℕ) : Prop where
  endSector_eq : c.endSector = job.endSector
  more : 0 < k → job.partStart k < job.endSector
  parts : ∀ j < k, c.PartDone job (job.partStart j)
  iter_eq : c.iter = 0
  next_eq : c.nextReadSector = job.partStart k
  reads : c.ReadUpTo job k

/-- The `k`-th part has been requested. -/
def Requested (job : PcJob) (c : Cursor) (k : ℕ) : Prop :=
  c.startSector = job.partStart k ∧ c.sectorNum = job.sectorNum

/-- The `k`-th part has been read, and is to be written to the `i`-th target. -/
structure Writing (job : PcJob) (c : Cursor) (k i : ℕ) : Prop where
  endSector_eq : c.endSector = job.endSector
  more : 0 < k → job.partStart k < job.endSector
  parts : ∀ j < k, c.PartDone job (job.partStart j)
  iter_eq : c.iter = i
  iter_le : i ≤ c.infoList.length
  requested : c.Requested job k
  buffer_eq : c.buffer = some (job.readRequest (job.partStart k))
  read_mem : job.readRequest (job.partStart k) ∈ c.succeeded
  served : ∀ j < i, c.Served job (job.partStart k) j
  reads : c.ReadUpTo job (k + 1)

/-- The first `k` parts have been read and are copied, and the last of them reaches the end. -/
structure Copied (job : PcJob) (c : Cursor) (k : ℕ) : Prop where
  pos : 0 < k
  last : 1 < k → job.partStart (k - 1) < job.endSector
  reaches : job.endSector ≤ job.partStart k
  parts : ∀ j < k, c.PartDone job (job.partStart j)
  reads : c.ReadUpTo job k

/-- More requests have been answered, and more targets are offline. -/
structure Le (c c' : Cursor) : Prop where
  succeeded : c.succeeded ⊆ c'.succeeded
  empties : c.empties ⊆ c'.empties
  offline : ∀ (i : ℕ) (t' : Target), c'.infoList[i]? = some t' →
    ∃ t, c.infoList[i]? = some t ∧ (t.offline = true → t'.offline = true)

theorem Served.mono {sector : ℕ} (h : c.Served job sector i) (hle : Le c c') :
    c'.Served job sector i := by
  intro t' ht'
  obtain ⟨t, ht, hoffline⟩ := hle.offline i t' ht'
  exact (h t ht).imp hoffline fun hmem => hle.succeeded hmem

theorem PartDone.mono {sector : ℕ} (h : c.PartDone job sector) (hle : Le c c') :
    c'.PartDone job sector :=
  h.imp (fun hmem => hle.empties hmem)
    fun ⟨hmem, hserved⟩ => ⟨hle.succeeded hmem, fun i => (hserved i).mono hle⟩

/-- The offline targets are marked. -/
def check (env : Env) (c : Cursor) : Cursor :=
  { c with infoList := c.infoList.map (Target.check env) }

theorem le_check (env : Env) (c : Cursor) : Le c (c.check env) where
  succeeded := List.Subset.refl _
  empties := List.Subset.refl _
  offline := by
    intro i t' ht'
    obtain ⟨t, ht, rfl⟩ := Option.map_eq_some_iff.mp (getElem?_map ▸ ht')
    refine ⟨t, ht, fun hoffline => ?_⟩
    rw [Target.check]
    split
    · rfl
    · exact hoffline

theorem Reading.check (h : c.Reading job k) (env : Env) : (c.check env).Reading job k :=
  { h with parts := fun j hj => (h.parts j hj).mono (le_check env c) }

theorem Writing.check (h : c.Writing job k i) (env : Env) : (c.check env).Writing job k i :=
  { h with
    parts := fun j hj => (h.parts j hj).mono (le_check env c)
    iter_le := h.iter_le.trans_eq (length_map (Target.check env)).symm
    served := fun j hj => (h.served j hj).mono (le_check env c) }

theorem Writing.next (hc : c.Writing job k i) (hi : i < c.infoList.length)
    (hserved : c.Served job (job.partStart k) i) :
    Writing job { c with iter := c.iter + 1 } k (i + 1) :=
  { hc with
    iter_eq := congrArg (· + 1) hc.iter_eq
    iter_le := hi
    served := Nat.forall_lt_succ_right.mpr ⟨hc.served, hserved⟩ }

theorem le_of_subset (hinfoList : c'.infoList = c.infoList)
    (hsucceeded : c.succeeded ⊆ c'.succeeded)
    (hempties : c.empties ⊆ c'.empties) : Le c c' :=
  ⟨hsucceeded, hempties, fun _ t' ht' => ⟨t', hinfoList ▸ ht', id⟩⟩

theorem ReadUpTo.answered (h : c.ReadUpTo job k)
    (hnew : ∀ r, r ∈ c'.succeeded ∨ r ∈ c'.empties →
      r = job.readRequest (job.partStart k) ∨ r ∈ c.succeeded ∨ r ∈ c.empties) :
    c'.ReadUpTo job (k + 1) := by
  intro r hr hread
  rcases hnew r hr with rfl | hold
  · exact ⟨k, k.lt_succ_self, rfl⟩
  · obtain ⟨j, hj, heq⟩ := h r hold hread
    exact ⟨j, hj.trans k.lt_succ_self, heq⟩

theorem Reading.writing (hc : c.Reading job k) (hrequested : c.Requested job k) :
    Writing job
      { c with
        succeeded := job.readRequest (job.partStart k) :: c.succeeded
        buffer := some (job.readRequest (job.partStart k)) } k 0 where
  endSector_eq := hc.endSector_eq
  more := hc.more
  parts := fun j hj => (hc.parts j hj).mono
    (le_of_subset rfl (subset_cons_self _ _) (List.Subset.refl _))
  iter_eq := hc.iter_eq
  iter_le := Nat.zero_le _
  requested := hrequested
  buffer_eq := rfl
  read_mem := mem_cons_self
  served := fun j hj => absurd hj j.not_lt_zero
  reads := hc.reads.answered (by simp [or_assoc])

theorem Reading.empty (hc : c.Reading job k) :
    (∀ j < k + 1, PartDone job
      { c with empties := job.readRequest (job.partStart k) :: c.empties } (job.partStart j)) ∧
      ReadUpTo job { c with empties := job.readRequest (job.partStart k) :: c.empties }
        (k + 1) := by
  refine ⟨Nat.forall_lt_succ_right.mpr ⟨fun j hj => ?_, .inl mem_cons_self⟩,
    hc.reads.answered fun r hr => ?_⟩
  · exact (hc.parts j hj).mono
      (le_of_subset rfl (List.Subset.refl _) (subset_cons_self _ _))
  · simp only [mem_cons] at hr
    tauto

theorem Writing.written (hc : c.Writing job k i) :
    Writing job { c with succeeded := job.writeRequest i (job.partStart k) :: c.succeeded } k i :=
  have hle : Le c { c with succeeded := job.writeRequest i (job.partStart k) :: c.succeeded } :=
    le_of_subset rfl (subset_cons_self _ _) (List.Subset.refl _)
  { hc with
    parts := fun j hj => (hc.parts j hj).mono hle
    read_mem := hle.succeeded hc.read_mem
    served := fun j hj => (hc.served j hj).mono hle
    reads := fun r hr hread => by
      simp only [mem_cons, or_assoc] at hr
      rcases hr with rfl | hr
      · exact absurd hread id
      · exact hc.reads r hr hread }

end Cursor

namespace DoHelaPcTask

variable {job : PcJob} {env : Env} {h h' : DoHelaPcTask} {k i : ℕ} {retcode : Retcode}
  {e : Event × Env}

/-! ### The situations of a handle -/

/-- Every connection that was asked for was there. -/
structure Connected (h : DoHelaPcTask) : Prop where
  usedMissing : h.usedMissing = false
  connections : false ∉ h.connections

/-- The task has been started and has not ended. -/
structure Alive (job : PcJob) (h : DoHelaPcTask) : Prop extends Connected h where
  started : h.started = true
  statusFail : h.statusFail = false
  srcType : h.srcType = job.srcType

/-- A handler is about to read the `k`-th part. -/
structure ToRead (job : PcJob) (h : DoHelaPcTask) (k : ℕ) : Prop extends Alive job h where
  idle : h.agenda.Idle
  cursor : h.cursor.Reading job k

/-- A handler is about to write the `k`-th part to the `i`-th target. -/
structure ToWrite (job : PcJob) (h : DoHelaPcTask) (k i : ℕ) : Prop extends Alive job h where
  idle : h.agenda.Idle
  cursor : h.cursor.Writing job k i

/-- The situations of a handle between two handlers. -/
inductive Inv (job : PcJob) (h : DoHelaPcTask) : Prop
  /-- The task has not been started. -/
  | fresh (init : h = DoHelaPcTask.init job)
  /-- The handle waits to read the `k`-th part, or for its data. -/
  | reading (k : ℕ) (next : Continuation) (alive : Alive job h) (agenda : h.agenda.Next false next)
      (cursor : h.cursor.Reading job k)
      (sent : ∀ r, next = .request r →
        r = job.readRequest (job.partStart k) ∧ h.cursor.Requested job k)
  /-- The handle waits to write the `k`-th part to the `i`-th target, or for the answer. -/
  | writing (k i : ℕ) (next : Continuation) (alive : Alive job h) (agenda : h.agenda.Next true next)
      (cursor : h.cursor.Writing job k i)
      (sent : ∀ r, next = .request r →
        r = job.writeRequest i (job.partStart k) ∧ i < h.cursor.infoList.length)
  /-- The result has been posted. -/
  | finished (retcode : Retcode) (connected : Connected h) (started : h.started = true)
      (agenda : h.agenda.Finished retcode)
      (copied : retcode = .success → ∃ k, h.cursor.Copied job k)
  /-- A handler has called a connection that it did not get. -/
  | crashed (started : h.started = true) (usedMissing : h.usedMissing = true)
      (connections : false ∈ h.connections) (requests : h.agenda.requests = [])

/-! ### Setting up what comes next -/

/-- The task ends, with success only when everything is copied. -/
theorem inv_finish (halive : Alive job h) (hquiet : h.agenda.Quiet)
    (hcopied : retcode = .success → ∃ k, h.cursor.Copied job k) :
    Inv job (h.finishHelaPcTask retcode) := by
  refine .finished retcode { halive with } halive.started ⟨?_, ?_, hquiet.requests⟩ hcopied
  · simp [finishHelaPcTask, hquiet.posted]
  · simp [finishHelaPcTask, hquiet.timers]

theorem armed_runAfter (hquiet : h.agenda.Quiet) (callback : Callback) :
    (h.runAfter callback).agenda.Armed callback :=
  ⟨hquiet.posted, hquiet.requests, h.agenda.timerId + 1, by simp [runAfter, hquiet.timers]⟩

theorem inv_retryAfterBackoff (halive : Alive job h) (hquiet : h.agenda.Quiet)
    (hret : retcode ≠ .success)
    (hnext : Inv job ({ h with backOff := h.backOff.reportError }.runAfter .retry)) :
    Inv job (h.retryAfterBackoff retcode) := by
  rw [retryAfterBackoff]
  split
  · exact inv_finish halive hquiet fun hsuccess => absurd hsuccess hret
  · exact hnext

theorem ToRead.inv_setRetryRead (hr : ToRead job h k) : Inv job (h.setRetryRead true) := by
  have hquiet : Agenda.Quiet { h.agenda with retryRead := true } := { hr.idle with }
  have hret : (if h.srcType = .koala then Retcode.fail else .sourceUnavailable) ≠ .success := by
    split <;> decide
  refine inv_retryAfterBackoff { hr with } hquiet hret ?_
  exact .reading k .retry { hr with }
    ⟨armed_runAfter hquiet .retry, rfl, hr.idle.retryWrite, hr.idle.pendingRead,
      hr.idle.pendingWrite⟩ hr.cursor fun r hr => nomatch hr

theorem ToRead.inv_setPendingRead (hr : ToRead job h k) : Inv job (h.setPendingRead true) := by
  have hquiet : Agenda.Quiet { h.agenda with pendingRead := true } := { hr.idle with }
  exact .reading k .pending { hr with }
    ⟨armed_runAfter hquiet .pending, hr.idle.retryRead, hr.idle.retryWrite, rfl,
      hr.idle.pendingWrite⟩ hr.cursor fun r hr => nomatch hr

theorem ToWrite.inv_setRetryWrite (hw : ToWrite job h k i) : Inv job (h.setRetryWrite true) := by
  have hquiet : Agenda.Quiet { h.agenda with retryWrite := true } := { hw.idle with }
  refine inv_retryAfterBackoff { hw with } hquiet (by decide) ?_
  exact .writing k i .retry { hw with }
    ⟨armed_runAfter hquiet .retry, hw.idle.retryRead, rfl, hw.idle.pendingRead,
      hw.idle.pendingWrite⟩ hw.cursor fun r hr => nomatch hr

theorem ToWrite.inv_setPendingWrite (hw : ToWrite job h k i) :
    Inv job (h.setPendingWrite true) := by
  have hquiet : Agenda.Quiet { h.agenda with pendingWrite := true } := { hw.idle with }
  exact .writing k i .pending { hw with }
    ⟨armed_runAfter hquiet .pending, hw.idle.retryRead, hw.idle.retryWrite,
      hw.idle.pendingRead, rfl⟩ hw.cursor fun r hr => nomatch hr

theorem next_sendRequest (hidle : h.agenda.Idle) (write : Bool) (r : Request) :
    (h.sendRequest r).agenda.Next write (.request r) :=
  ⟨{ hidle with requests := rfl }, by simp [sendRequest, hidle.requests]⟩

/-! ### Reading -/

theorem checkCluster_eq (job : PcJob) (env : Env) (h : DoHelaPcTask) :
    (checkCluster job env h).2 = h ∨ ∃ clusterVersion sourceOffline,
      (checkCluster job env h).2 =
        { h with clusterVersion, sourceOffline, cursor := h.cursor.check env } := by
  rw [checkCluster]
  split
  · exact .inr ⟨_, _, rfl⟩
  · exact .inl rfl

theorem length_checkCluster (job : PcJob) (env : Env) (h : DoHelaPcTask) :
    (checkCluster job env h).2.cursor.infoList.length = h.cursor.infoList.length := by
  obtain heq | ⟨clusterVersion, sourceOffline, heq⟩ := checkCluster_eq job env h
  · rw [heq]
  · rw [heq]
    exact length_map _

theorem ToRead.checkCluster (hr : ToRead job h k) (env : Env) :
    ToRead job (checkCluster job env h).2 k := by
  obtain heq | ⟨clusterVersion, sourceOffline, heq⟩ := checkCluster_eq job env h
  · rwa [heq]
  · rw [heq]
    exact { hr with cursor := hr.cursor.check env }

theorem ToWrite.checkCluster (hw : ToWrite job h k i) (env : Env) :
    ToWrite job (checkCluster job env h).2 k i := by
  obtain heq | ⟨clusterVersion, sourceOffline, heq⟩ := checkCluster_eq job env h
  · rwa [heq]
  · rw [heq]
    exact { hw with cursor := hw.cursor.check env }

section

variable (hr : ToRead job h k)

include hr

theorem ToRead.fillKoalaSourceRouter (heq : fillKoalaSourceRouter job h = some h') :
    ToRead job h' k := by
  simp only [DoHelaPcTask.fillKoalaSourceRouter] at heq
  split_ifs at heq
  obtain ⟨router, -, rfl⟩ := Option.map_eq_some_iff.mp heq
  exact { hr with }

theorem ToRead.newKoalaSource (heq : newKoalaSource job env h = some h') : ToRead job h' k := by
  obtain ⟨h₀, h₀_eq, rfl⟩ := Option.map_eq_some_iff.mp heq
  exact { hr.fillKoalaSourceRouter h₀_eq with }

theorem ToRead.changeKoalaSource (heq : changeKoalaSource job env h = some h') :
    ToRead job h' k := by
  simp only [DoHelaPcTask.changeKoalaSource] at heq
  split_ifs at heq
  · exact ToRead.newKoalaSource (k := k) { hr with } heq
  · obtain rfl := Option.some.inj heq
    exact { hr with }

theorem ToRead.inv_request (heq : r = job.readRequest (job.partStart k)) :
    Inv job ({ h with cursor := { h.cursor with
      startSector := h.cursor.nextReadSector, sectorNum := job.sectorNum } }.sendRequest r) :=
  .reading k (.request r) { hr with } (next_sendRequest hr.idle false r) { hr.cursor with }
    fun _ hr' => Continuation.request.inj hr' ▸ ⟨heq, hr.cursor.next_eq, rfl⟩

theorem ToRead.inv_readDataFromKoala (hkoala : job.srcType = .koala)
    (env : Env) : Inv job (readDataFromKoala job env h) := by
  rw [readDataFromKoala]
  split_ifs
  · refine hr.inv_request ?_
    rw [PcJob.readRequest, if_pos hkoala, hr.cursor.next_eq]
  · exact ToRead.inv_setRetryRead (k := k) { hr with cursor := { hr.cursor with } }
  · exact hr.inv_setPendingRead

theorem ToRead.inv_readDataFromChunk (hchunk : job.srcType ≠ .koala)
    (env : Env) : Inv job (readDataFromChunk job env h) := by
  have hr' := hr.checkCluster env
  simp only [readDataFromChunk]
  split_ifs
  · exact inv_finish hr'.toAlive hr'.idle.toQuiet nofun
  · refine hr'.inv_request ?_
    rw [PcJob.readRequest, if_neg hchunk, hr'.cursor.next_eq]
  · exact ToRead.inv_setRetryRead (k := k) { hr' with cursor := { hr'.cursor with } }
  · exact hr'.inv_setPendingRead

theorem ToRead.inv_decideKoalaSource (hkoala : job.srcType = .koala)
    {newSector change : Bool} (heq : decideKoalaSource job env newSector change h = some h') :
    Inv job h' := by
  obtain ⟨h₁, h₁_eq, heq⟩ := Option.bind_eq_some_iff.mp heq
  obtain ⟨h₂, h₂_eq, rfl⟩ := Option.map_eq_some_iff.mp heq
  have hr₁ : ToRead job h₁ k := by
    split at h₁_eq
    · exact hr.newKoalaSource h₁_eq
    · exact Option.some.inj h₁_eq ▸ hr
  have hr₂ : ToRead job h₂ k := by
    split at h₂_eq
    · exact hr₁.changeKoalaSource h₂_eq
    · exact Option.some.inj h₂_eq ▸ hr₁
  exact hr₂.inv_readDataFromKoala hkoala env

theorem ToRead.inv_readAgain {newSector change : Bool}
    (heq : readAgain job env newSector change h = some h') : Inv job h' := by
  rw [readAgain, hr.srcType] at heq
  split_ifs at heq with hkoala
  · exact hr.inv_decideKoalaSource hkoala heq
  · exact Option.some.inj heq ▸ hr.inv_readDataFromChunk hkoala env

end

/-- After a part, the next one is read, or the task ends. -/
theorem inv_readNextPart (halive : Alive job h) (hidle : h.agenda.Idle)
    (hend : h.cursor.endSector = job.endSector)
    (hmore : 0 < k → job.partStart k < job.endSector) (hiter : h.cursor.iter = 0)
    (hrequested : h.cursor.Requested job k)
    (hparts : ∀ j < k + 1, h.cursor.PartDone job (job.partStart j))
    (hreads : h.cursor.ReadUpTo job (k + 1)) (heq : readNextPart job env h = some h') :
    Inv job h' := by
  have hnext : uint64 (h.cursor.startSector + h.cursor.sectorNum) = job.partStart (k + 1) := by
    rw [hrequested.1, hrequested.2, job.partStart_succ]
    have := job.partStart_lt hmore
    have := job.sectorNum_lt
    exact uint64_eq_self (by omega)
  simp only [readNextPart, hnext] at heq
  split_ifs at heq with hlt <;> rw [hend] at hlt
  · have hr : ToRead job { h with cursor := { h.cursor with
        nextReadSector := job.partStart (k + 1) } } (k + 1) :=
      { halive with
        idle := hidle
        cursor := ⟨hend, fun _ => hlt, hparts, hiter, rfl, hreads⟩ }
    exact hr.inv_readAgain heq
  · obtain rfl := Option.some.inj heq
    refine inv_finish { halive with } hidle.toQuiet fun _ => ⟨k + 1, ?_⟩
    exact ⟨k.succ_pos, fun hk => hmore (Nat.lt_of_succ_lt_succ hk), not_lt.mp hlt, hparts, hreads⟩

/-! ### Writing -/

theorem retryAfterBackoff_frame (h : DoHelaPcTask) (retcode : Retcode) :
    (h.retryAfterBackoff retcode).started = h.started ∧
      (h.retryAfterBackoff retcode).connections = h.connections ∧
      (h.retryAfterBackoff retcode).agenda.requests = h.agenda.requests := by
  rw [retryAfterBackoff]
  split <;> exact ⟨rfl, rfl, rfl⟩

section

variable (hw : ToWrite job h k i)

include hw

theorem ToWrite.inv_writeDataToChunk (hi : i < h.cursor.infoList.length)
    (heq : writeDataToChunk job env h = some h') : Inv job h' := by
  simp only [writeDataToChunk] at heq
  split at heq
  · split at heq
    next hconnected =>
      obtain ⟨data, hdata, rfl⟩ := Option.map_eq_some_iff.mp heq
      obtain rfl : data = job.readRequest (job.partStart k) :=
        Option.some.inj (hdata.symm.trans hw.cursor.buffer_eq)
      have hw' : ToWrite job { h with connections := h.connections ++ [env.connected] } k i :=
        { hw with connections := by simp [hconnected, hw.connections] }
      split_ifs
      · refine .writing k i (.request _) { hw' with } (next_sendRequest hw.idle true _) hw.cursor
          fun r hr => ?_
        obtain rfl := Continuation.request.inj hr
        refine ⟨?_, hi⟩
        rw [hw.cursor.iter_eq, hw.cursor.requested.1]
        rfl
      · exact hw'.inv_setRetryWrite
    next hconnected =>
      -- the connection is used all the same
      obtain rfl := Option.some.inj heq
      obtain ⟨hstarted, hconnections, hrequests⟩ := retryAfterBackoff_frame
        { h with
          connections := h.connections ++ [env.connected]
          agenda := { h.agenda with retryWrite := true } } .fail
      have hmem : false ∈ h.connections ++ [env.connected] := by simp [hconnected]
      exact .crashed (hstarted.trans hw.started) rfl (hconnections.symm ▸ hmem)
        (hrequests.trans hw.idle.requests)
  · exact Option.some.inj heq ▸ hw.inv_setPendingWrite

theorem ToWrite.partDone (hi : i = h.cursor.infoList.length) :
    h.cursor.PartDone job (job.partStart k) := by
  refine .inr ⟨hw.cursor.read_mem, fun j t ht => ?_⟩
  obtain ⟨hj, -⟩ := List.getElem?_eq_some_iff.mp ht
  exact hw.cursor.served j (hi ▸ hj) t ht

theorem ToWrite.next (hi : i < h.cursor.infoList.length)
    (hserved : h.cursor.Served job (job.partStart k) i) :
    ToWrite job { h with cursor := { h.cursor with iter := h.cursor.iter + 1 } } k (i + 1) :=
  { hw with cursor := hw.cursor.next hi hserved }

/-- The loop over the targets. The targets passed are served, and `left` of them are left. -/
theorem inv_handleWriteChunkLoop {left : ℕ} (hleft : i + left = h.cursor.infoList.length)
    (heq : handleWriteChunkLoop job env left h = some h') : Inv job h' := by
  induction left generalizing h i with
  | zero =>
    have hparts : ∀ j < k + 1, h.cursor.PartDone job (job.partStart j) :=
      Nat.forall_lt_succ_right.mpr ⟨hw.cursor.parts, hw.partDone hleft⟩
    exact inv_readNextPart (h := { h with cursor := { h.cursor with buffer := none, iter := 0 } })
      { hw with } hw.idle hw.cursor.endSector_eq hw.cursor.more rfl hw.cursor.requested hparts
      hw.cursor.reads heq
  | succ left ih =>
    have hw' := hw.checkCluster env
    have hlength := length_checkCluster job env h
    simp only [handleWriteChunkLoop] at heq
    split_ifs at heq
    · exact Option.some.inj heq ▸ inv_finish hw'.toAlive hw'.idle.toQuiet nofun
    · obtain ⟨info, hinfo, heq⟩ := Option.bind_eq_some_iff.mp heq
      rw [hw'.cursor.iter_eq] at hinfo
      obtain ⟨hi, -⟩ := List.getElem?_eq_some_iff.mp hinfo
      split_ifs at heq with hoffline
      · have hserved : (checkCluster job env h).2.cursor.Served job (job.partStart k) i :=
          fun t ht => .inl (Option.some.inj (hinfo.symm.trans ht) ▸ hoffline)
        exact ih (hw'.next hi hserved)
          ((Nat.succ_add_eq_add_succ i left).trans (hleft.trans hlength.symm)) heq
      · exact hw'.inv_writeDataToChunk hi heq

theorem ToWrite.inv_handleWriteChunk (heq : handleWriteChunk job env h = some h') : Inv job h' := by
  refine inv_handleWriteChunkLoop hw ?_ heq
  rw [hw.cursor.iter_eq]
  exact Nat.add_sub_cancel' hw.cursor.iter_le

end

/-! ### Answers -/

theorem ToRead.inv_handleReadKoalaResponse (hr : ToRead job h k)
    (hreq : r = job.readRequest (job.partStart k)) (hrequested : h.cursor.Requested job k)
    {retcode : KoalaRet}
    (heq : handleReadKoalaResponse job env r
      ((h.record r (retcode = .success)).recordEmpty r (retcode = .empty)) retcode = some h') :
    Inv job h' := by
  subst hreq
  cases retcode with
  | success =>
    refine ToWrite.inv_handleWriteChunk (k := k) (i := 0) ?_ heq
    exact { hr with cursor := hr.cursor.writing hrequested }
  | empty =>
    obtain ⟨hparts, hreads⟩ := hr.cursor.empty
    refine inv_readNextPart ?_ ?_ ?_ hr.cursor.more ?_ ?_ ?_ ?_ heq
    exacts [{ hr with }, hr.idle, hr.cursor.endSector_eq, hr.cursor.iter_eq, hrequested, hparts,
      hreads]
  | eioError => exact Option.some.inj heq ▸ hr.inv_setRetryRead
  | busy => exact Option.some.inj heq ▸ hr.inv_setPendingRead
  | sourceUnavailable =>
    obtain rfl := Option.some.inj heq
    exact ToRead.inv_setPendingRead (k := k) { hr with }
  | other => exact Option.some.inj heq ▸ hr.inv_setRetryRead

theorem ToRead.inv_handleReadChunkResponse (hr : ToRead job h k)
    (hreq : r = job.readRequest (job.partStart k)) (hrequested : h.cursor.Requested job k)
    {retcode : ChunkRet}
    (heq : handleReadChunkResponse job env r (h.record r (retcode = .ok)) retcode = some h') :
    Inv job h' := by
  subst hreq
  cases retcode with
  | ok =>
    refine ToWrite.inv_handleWriteChunk (k := k) (i := 0) ?_ heq
    exact { hr with cursor := hr.cursor.writing hrequested }
  | clusterVersionErr => exact Option.some.inj heq ▸ inv_finish hr.toAlive hr.idle.toQuiet nofun
  | chunkNotReady | aioReadTimeout | helaQueueFull =>
    exact Option.some.inj heq ▸ hr.inv_setPendingRead
  | resetConnection | aioWriteTimeout | other => exact Option.some.inj heq ▸ hr.inv_setRetryRead

theorem ToWrite.inv_handleWriteChunkResponse (hw : ToWrite job h k i)
    (hi : i < h.cursor.infoList.length) {retcode : ChunkRet}
    (heq : handleWriteChunkResponse job env
      (h.record (job.writeRequest i (job.partStart k)) (retcode = .ok)) retcode = some h') :
    Inv job h' := by
  have hiter : h.cursor.iter < h.cursor.infoList.length := hw.cursor.iter_eq.trans_lt hi
  cases retcode with
  | ok =>
    have hw' : ToWrite job
        { h with
          cursor := { h.cursor with
            succeeded := job.writeRequest i (job.partStart k) :: h.cursor.succeeded } } k i :=
      { hw with cursor := hw.cursor.written }
    refine ToWrite.inv_handleWriteChunk (k := k) (i := i + 1) ?_ ((if_pos hiter).symm.trans heq)
    exact { hw'.next hi fun t _ => .inr mem_cons_self with }
  | clusterVersionErr =>
    have hw' := hw.checkCluster env
    replace heq := (if_pos hiter).symm.trans heq
    dsimp only at heq
    split at heq
    · exact Option.some.inj heq ▸ inv_finish hw'.toAlive hw'.idle.toQuiet nofun
    · exact Option.some.inj heq ▸ hw'.inv_setPendingWrite
  | _ => exact Option.some.inj ((if_pos hiter).symm.trans heq) ▸ hw.inv_setPendingWrite

/-! ### Timers -/

variable {next : Continuation}

/-- The timer that runs out is the only one, and it is of the kind that the handle waits for. -/
theorem timer_cases {write : Bool} (halive : Alive job h)
    (hagenda : h.agenda.Next write next) (hstep : step job h (.timer id, env) = some h') :
    (h.agenda.timers.filter fun t => t.1 ≠ id) = [] ∧
      (next = .retry ∧ handleRetryCb job env (h.removeTimer id) = some h' ∨
        next = .pending ∧ handlePendingCb job env (h.removeTimer id) = some h') := by
  rw [step, if_neg (by simp [halive.usedMissing])] at hstep
  dsimp only at hstep
  cases ht : h.agenda.timers.find? fun t => t.1 = id with
  | none => simp [ht] at hstep
  | some t =>
    obtain ⟨id', callback⟩ := t
    rw [ht] at hstep
    obtain ⟨hfilter, ⟨rfl, hnext⟩ | ⟨rfl, hnext⟩⟩ := hagenda.of_find_timers ht
    · exact ⟨hfilter, .inl ⟨hnext, hstep⟩⟩
    · exact ⟨hfilter, .inr ⟨hnext, hstep⟩⟩

theorem inv_timer_reading (halive : Alive job h)
    (hagenda : h.agenda.Next false next) (hcursor : h.cursor.Reading job k)
    (hstep : step job h (.timer id, env) = some h') : Inv job h' := by
  have hstatus : ¬(h.removeTimer id).statusFail = true := by simp [removeTimer, halive.statusFail]
  obtain ⟨hfilter, ⟨rfl, heq⟩ | ⟨rfl, heq⟩⟩ := timer_cases halive hagenda hstep
  all_goals
    obtain ⟨harmed, hretryRead, hretryWrite, hpendingRead, hpendingWrite⟩ := hagenda
    have hquiet : (h.removeTimer id).agenda.Quiet := ⟨harmed.posted, hfilter, harmed.requests⟩
  · have hflag : (h.removeTimer id).agenda.retryRead = true := hretryRead
    rw [handleRetryCb, if_neg hstatus, if_neg (by simp [removeTimer, hretryWrite]),
      if_pos hflag] at heq
    refine ToRead.inv_readAgain (k := k) ?_ heq
    exact { halive with
      idle := ⟨{ hquiet with }, rfl, hretryWrite, hpendingRead, hpendingWrite⟩, cursor := hcursor }
  · have hflag : (h.removeTimer id).agenda.pendingRead = true := hpendingRead
    rw [handlePendingCb, if_neg hstatus, if_neg (by simp [removeTimer, hpendingWrite]),
      if_pos hflag] at heq
    have hr : ToRead job ((h.removeTimer id).setPendingRead false) k :=
      { halive with
        idle := ⟨{ hquiet with }, hretryRead, hretryWrite, rfl, hpendingWrite⟩, cursor := hcursor }
    dsimp only at heq
    split at heq
    next hkoala =>
      refine ToRead.inv_decideKoalaSource (k := k) ?_ (hr.srcType.symm.trans hkoala) heq
      exact { hr with }
    next hchunk =>
      exact Option.some.inj heq ▸
        hr.inv_readDataFromChunk (fun hkoala => hchunk (hr.srcType.trans hkoala)) env

theorem inv_timer_writing (halive : Alive job h)
    (hagenda : h.agenda.Next true next) (hcursor : h.cursor.Writing job k i)
    (hstep : step job h (.timer id, env) = some h') : Inv job h' := by
  have hstatus : ¬(h.removeTimer id).statusFail = true := by simp [removeTimer, halive.statusFail]
  obtain ⟨hfilter, ⟨rfl, heq⟩ | ⟨rfl, heq⟩⟩ := timer_cases halive hagenda hstep
  all_goals
    obtain ⟨harmed, hretryRead, hretryWrite, hpendingRead, hpendingWrite⟩ := hagenda
    have hquiet : (h.removeTimer id).agenda.Quiet := ⟨harmed.posted, hfilter, harmed.requests⟩
  · have hflag : (h.removeTimer id).agenda.retryWrite = true := hretryWrite
    rw [handleRetryCb, if_neg hstatus, if_pos hflag] at heq
    refine ToWrite.inv_handleWriteChunk (k := k) (i := i) ?_ heq
    exact { halive with
      idle := ⟨{ hquiet with }, hretryRead, rfl, hpendingRead, hpendingWrite⟩, cursor := hcursor }
  · have hflag : (h.removeTimer id).agenda.pendingWrite = true := hpendingWrite
    rw [handlePendingCb, if_neg hstatus, if_pos hflag] at heq
    refine ToWrite.inv_handleWriteChunk (k := k) (i := i) ?_ heq
    exact { halive with
      idle := ⟨{ hquiet with }, hretryRead, hretryWrite, hpendingRead, rfl⟩, cursor := hcursor }

/-! ### Events -/

theorem reading_zero (job : PcJob) : Cursor.Reading job
    ⟨job.infoList, 0, 0, 0, job.firstSector, job.endSector, none, [], []⟩ 0 where
  endSector_eq := rfl
  more := nofun
  parts := nofun
  iter_eq := rfl
  next_eq := by simp [PcJob.partStart]
  reads := fun r hr => by simp at hr

theorem inv_start (heq : start job env (init job) = some h') : Inv job h' := by
  simp only [start] at heq
  split at heq
  next hkoala =>
    refine ToRead.inv_decideKoalaSource (k := 0) ?_ hkoala heq
    exact ⟨⟨⟨rfl, not_mem_nil⟩, rfl, rfl, rfl⟩, ⟨⟨rfl, rfl, rfl⟩, rfl, rfl, rfl, rfl⟩,
      reading_zero job⟩
  next hchunk =>
    obtain rfl := Option.some.inj heq
    refine ToRead.inv_readDataFromChunk (k := 0) ?_ hchunk env
    exact ⟨⟨⟨rfl, not_mem_nil⟩, rfl, rfl, rfl⟩, ⟨⟨rfl, rfl, rfl⟩, rfl, rfl, rfl, rfl⟩,
      reading_zero job⟩

theorem ToRead.inv_requestTimeOut (hr : ToRead job h k) (hread : r.IsRead) :
    Inv job (requestTimeOut job h r) := by
  cases r with
  | readKoala sector sectorNum shardIdx =>
    simp only [requestTimeOut, readKoalaTimeOut]
    split_ifs
    · exact ToRead.inv_setPendingRead (k := k) { hr with }
    · exact ToRead.inv_setRetryRead (k := k) { hr with }
    · exact hr.inv_setRetryRead
  | readChunk offset length => exact hr.inv_setRetryRead
  | write target offset length data => exact absurd hread id

theorem isRead_readRequest (job : PcJob) (sector : ℕ) : (job.readRequest sector).IsRead := by
  rw [PcJob.readRequest]
  split <;> trivial

/-- The events of a handle that reads a part. -/
theorem inv_step_reading (halive : Alive job h)
    (hagenda : h.agenda.Next false next) (hcursor : h.cursor.Reading job k)
    (hsent : ∀ r, next = .request r →
      r = job.readRequest (job.partStart k) ∧ h.cursor.Requested job k)
    (hstep : step job h e = some h') : Inv job h' := by
  obtain ⟨e, env⟩ := e
  -- an answer or a timeout belongs to the read, and leaves the handle idle
  have hanswer : ∀ r ∈ h.agenda.requests, ToRead job (h.removeRequest r) k ∧
      r = job.readRequest (job.partStart k) ∧ h.cursor.Requested job k := by
    intro r hr
    obtain ⟨hnext, hidle⟩ := hagenda.of_mem_requests hr
    exact ⟨{ halive with idle := hidle, cursor := hcursor }, hsent r hnext⟩
  have hcase := hstep
  rw [step, if_neg (by simp [halive.usedMissing])] at hcase
  cases e with
  | start => simp [halive.started] at hcase
  | timer id =>
    exact inv_timer_reading halive hagenda hcursor hstep
  | koalaResponse sector sectorNum shardIdx retcode =>
    obtain ⟨hmem, hcase⟩ := Option.ite_none_right_eq_some.mp hcase
    obtain ⟨hr, hreq, hrequested⟩ := hanswer _ hmem
    exact hr.inv_handleReadKoalaResponse hreq hrequested hcase
  | readResponse offset length retcode =>
    obtain ⟨hmem, hcase⟩ := Option.ite_none_right_eq_some.mp hcase
    obtain ⟨hr, hreq, hrequested⟩ := hanswer _ hmem
    exact hr.inv_handleReadChunkResponse hreq hrequested hcase
  | writeResponse target offset length data retcode =>
    obtain ⟨hmem, hcase⟩ := Option.ite_none_right_eq_some.mp hcase
    obtain ⟨-, hreq, -⟩ := hanswer _ hmem
    have hread := isRead_readRequest job (job.partStart k)
    rw [← hreq] at hread
    exact absurd hread id
  | requestTimeOut r =>
    obtain ⟨hmem, hcase⟩ := Option.ite_none_right_eq_some.mp hcase
    obtain ⟨hr, hreq, -⟩ := hanswer r hmem
    obtain rfl := Option.some.inj hcase
    exact hr.inv_requestTimeOut (hreq ▸ isRead_readRequest job (job.partStart k))
  | resultHandled => simp [hagenda.posted] at hcase

/-- The events of a handle that writes a part to its targets. -/
theorem inv_step_writing (halive : Alive job h)
    (hagenda : h.agenda.Next true next) (hcursor : h.cursor.Writing job k i)
    (hsent : ∀ r, next = .request r →
      r = job.writeRequest i (job.partStart k) ∧ i < h.cursor.infoList.length)
    (hstep : step job h e = some h') : Inv job h' := by
  obtain ⟨e, env⟩ := e
  have hanswer : ∀ r ∈ h.agenda.requests, ToWrite job (h.removeRequest r) k i ∧
      r = job.writeRequest i (job.partStart k) ∧ i < h.cursor.infoList.length := by
    intro r hr
    obtain ⟨hnext, hidle⟩ := hagenda.of_mem_requests hr
    exact ⟨{ halive with idle := hidle, cursor := hcursor }, hsent r hnext⟩
  have hcase := hstep
  rw [step, if_neg (by simp [halive.usedMissing])] at hcase
  cases e with
  | start => simp [halive.started] at hcase
  | timer id =>
    exact inv_timer_writing halive hagenda hcursor hstep
  | koalaResponse | readResponse =>
    obtain ⟨hmem, hcase⟩ := Option.ite_none_right_eq_some.mp hcase
    exact nomatch (hanswer _ hmem).2.1
  | writeResponse target offset length data retcode =>
    obtain ⟨hmem, hcase⟩ := Option.ite_none_right_eq_some.mp hcase
    obtain ⟨hw, hreq, hi⟩ := hanswer _ hmem
    rw [hreq] at hw hcase
    exact hw.inv_handleWriteChunkResponse hi hcase
  | requestTimeOut r =>
    obtain ⟨hmem, hcase⟩ := Option.ite_none_right_eq_some.mp hcase
    obtain ⟨hw, hreq, -⟩ := hanswer r hmem
    obtain rfl := Option.some.inj hcase
    rw [hreq] at hw ⊢
    exact hw.inv_setPendingWrite
  | resultHandled => simp [hagenda.posted] at hcase

theorem inv_step_finished {retcode : Retcode} (hconnected : Connected h)
    (hstarted : h.started = true) (hagenda : h.agenda.Finished retcode)
    (hcopied : retcode = .success → ∃ k, h.cursor.Copied job k)
    (hstep : step job h e = some h') : Inv job h' := by
  obtain ⟨e, env⟩ := e
  cases e with
  | start => simp [step, hstarted] at hstep
  | timer id => simp [step, hagenda.timers] at hstep
  | koalaResponse | readResponse | writeResponse | requestTimeOut =>
    simp [step, hagenda.requests] at hstep
  | resultHandled =>
    simp only [step, hconnected.usedMissing, hagenda.posted, head?_cons, Option.map_some,
      Bool.false_eq_true, if_false, Option.some.injEq] at hstep
    subst hstep
    cases retcode with
    | success => exact .finished .success hconnected hstarted hagenda hcopied
    | sourceUnavailable =>
      exact .finished .sourceUnavailable { hconnected with } hstarted hagenda nofun
    | fail => exact .finished .fail { hconnected with } hstarted hagenda nofun

theorem inv_step_fresh (hstep : step job (init job) e = some h') : Inv job h' := by
  obtain ⟨e, env⟩ := e
  cases e with
  | start => exact inv_start hstep
  | timer | koalaResponse | readResponse | writeResponse | requestTimeOut | resultHandled =>
    simp [step, init] at hstep

/-- **One event.** Every handler leads from one situation of the handle to another. -/
theorem inv_step (hinv : Inv job h) (hstep : step job h e = some h') : Inv job h' := by
  cases hinv with
  | fresh hinit => exact inv_step_fresh (hinit ▸ hstep)
  | reading k next halive hagenda hcursor hsent =>
    exact inv_step_reading halive hagenda hcursor hsent hstep
  | writing k i next halive hagenda hcursor hsent =>
    exact inv_step_writing halive hagenda hcursor hsent hstep
  | finished retcode hconnected hstarted hagenda hcopied =>
    exact inv_step_finished hconnected hstarted hagenda hcopied hstep
  | crashed hstarted husedMissing hconnections hrequests => simp [step, husedMissing] at hstep

/-- After every run the handle is in one of the situations. -/
theorem inv_of_exec {es : List (Event × Env)} (h_run : exec (step job) (init job) es = some h) :
    Inv job h :=
  exec_invariant (Inv job) (fun _ _ _ hinv hstep => inv_step hinv hstep) (.fresh rfl) h_run

end DoHelaPcTask

end Hela
