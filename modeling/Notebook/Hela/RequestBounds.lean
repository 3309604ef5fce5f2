import Notebook.Hela.CloneComplete

/-!
# The requests of a pc task and the bounds of its pc

A pc task reads and writes its pc in parts of a configured number of sectors. Every request has the
length of a whole part, also the one for the last part. When the parts do not divide the pc, the
last requests reach into the next pc of a koala source, and beyond the end of a chunk.

The number of sectors comes from the configuration file. `HelaConfig::load` accepts any `int`; zero
stands for the default, and the size of an operation is kept in a `uint32_t`.

## Main definitions

* `Request.Inside` — the request stays in the pc.
* `PartsInside` — the parts that `Start` plans stay in the pc.

## Main results

* `inside_of_exec` — the requests of every run stay in the pc if the parts do.
* `exists_copying` — every planned part is requested in some run.
* `requests_inside_iff` — all requests stay in the pc exactly if the parts do.
-/

open Container Interleaving List

namespace Hela

/-! ### The configuration -/

variable (value : ℤ)

/-- `concurence_sectors_` after `HelaConfig::load`. -/
def concurenceSectors (value : ℤ) : ℤ := if value ≠ 0 then value else 2048

/-- `operate_size_` after `HelaConfig::load`, a `uint32_t`. -/
def operateSize (value : ℤ) : ℕ := (concurenceSectors value * defaultSectorSize % 2 ^ 32).toNat

theorem operateSize_lt : operateSize value < 2 ^ 32 := by
  unfold operateSize
  omega

theorem dvd_operateSize : 512 ∣ operateSize value := by
  unfold operateSize defaultSectorSize
  omega

/-! ### The bounds of a pc -/

/-- The request stays in the pc: a chunk is addressed by an offset in the pc, koala by the sectors
of the image. -/
def Request.Inside (pc pcSize : ℕ) : Request → Prop
  | .readKoala sector sectorNum _ =>
    ∀ x, sector ≤ x → x < sector + sectorNum →
      pc * pcSize / 512 ≤ x ∧ x < (pc + 1) * pcSize / 512
  | .readChunk offset length => offset + length ≤ pcSize
  | .write _ offset length _ => offset + length ≤ pcSize

/-- The parts that `Start` plans stay in the pc: they have no sectors; or the first sector can be
computed, and either the end can be too and the parts divide the pc, or it cannot and the only part
is not larger than the pc. -/
def PartsInside (pc pcSize sectorNum : ℕ) : Prop :=
  sectorNum = 0 ∨ pc * pcSize < 2 ^ 64 ∧
    if pc + 1 < 2 ^ 32 ∧ (pc + 1) * pcSize < 2 ^ 64 then sectorNum ∣ pcSize / 512
    else sectorNum ≤ pcSize / 512
deriving Decidable

namespace PcJob

variable {job : PcJob} {k : ℕ}

theorem inside_of_le (hsector : 512 ∣ job.pcSize) (hop : 512 ∣ job.operateSize)
    (hstart : job.partStart k = job.pc * job.sectors + k * job.sectorNum)
    (hpos : 0 < job.sectorNum) (hle : k * job.sectorNum + job.sectorNum ≤ job.sectors) :
    (job.readRequest (job.partStart k)).Inside job.pc job.pcSize ∧
      ∀ i, (job.writeRequest i (job.partStart k)).Inside job.pc job.pcSize := by
  have hchunk : job.offset (job.partStart k) + job.operateSize ≤ job.pcSize := by
    rw [hstart, offset_eq (by omega)]
    have hsize : job.sectors * 512 = job.pcSize := Nat.div_mul_cancel hsector
    have hnum : job.sectorNum * 512 = job.operateSize := Nat.div_mul_cancel hop
    omega
  refine ⟨?_, fun i => hchunk⟩
  rw [readRequest]
  split
  · intro x hx hlt
    rw [mul_pcSize_div hsector, mul_pcSize_div hsector, add_mul, one_mul]
    omega
  · exact hchunk

theorem inside_of_zero (hsize : 0 < job.pcSize) (hsector : 512 ∣ job.pcSize)
    (hop : 512 ∣ job.operateSize) (hzero : job.sectorNum = 0) (sector : ℕ) :
    (job.readRequest sector).Inside job.pc job.pcSize ∧
      ∀ i, (job.writeRequest i sector).Inside job.pc job.pcSize := by
  have hchunk : job.offset sector + job.operateSize ≤ job.pcSize := by
    have hnum : job.sectorNum * 512 = job.operateSize := Nat.div_mul_cancel hop
    have hsectors : job.pcSize / 512 * 512 = job.pcSize := Nat.div_mul_cancel hsector
    have hlt : sector % (job.pcSize / 512) < job.pcSize / 512 := Nat.mod_lt _ (by omega)
    rw [offset, defaultSectorSize]
    omega
  refine ⟨?_, fun i => hchunk⟩
  rw [readRequest]
  split
  · intro x hx hlt
    omega
  · exact hchunk

/-- The requests for a planned part stay in the pc. -/
theorem inside_of_partsInside (hsize : 0 < job.pcSize) (hsector : 512 ∣ job.pcSize)
    (hop : 512 ∣ job.operateSize) (hparts : PartsInside job.pc job.pcSize job.sectorNum)
    (hmore : 0 < k → job.partStart k < job.endSector) :
    (job.readRequest (job.partStart k)).Inside job.pc job.pcSize ∧
      ∀ i, (job.writeRequest i (job.partStart k)).Inside job.pc job.pcSize := by
  rcases eq_zero_or_pos job.sectorNum with hzero | hpos
  · exact inside_of_zero hsize hsector hop hzero _
  obtain ⟨hfirst, hparts⟩ := hparts.resolve_left hpos.ne'
  have hstart : job.partStart k = job.pc * job.sectors + k * job.sectorNum := by
    rw [partStart, firstSector_eq hsector hfirst]
  have hsectors : 0 < job.sectors := Nat.div_pos (Nat.le_of_dvd hsize hsector) (by decide)
  refine inside_of_le hsector hop hstart hpos ?_
  split at hparts
  next hend =>
    -- the part starts before the end, and the parts divide the pc
    have hlt : k * job.sectorNum < job.sectors := by
      rcases eq_zero_or_pos k with rfl | hk
      · rwa [zero_mul]
      · have := hmore hk
        rw [hstart, endSector_eq hsector hend, add_mul, one_mul] at this
        omega
    obtain ⟨m, hm⟩ : job.sectorNum ∣ job.sectors := hparts
    rw [hm, mul_comm] at hlt
    rw [hm, ← Nat.succ_mul, Nat.mul_comm]
    exact Nat.mul_le_mul_left _ (Nat.lt_of_mul_lt_mul_left hlt)
  next hend =>
    -- only the first part is read
    obtain rfl : k = 0 := by
      by_contra hk
      have hlt := (hmore (pos_of_ne_zero hk)).trans_le (endSector_le_firstSector hfirst hend)
      rw [partStart] at hlt
      omega
    rw [zero_mul, zero_add]
    exact hparts

end PcJob

/-! ### Requests inside the pc -/

namespace DoHelaPcTask

variable {job : PcJob} {h : DoHelaPcTask}

/-- **The requests of every run** stay in the pc if the parts of the pc do. -/
theorem inside_of_exec (hsize : 0 < job.pcSize) (hsector : 512 ∣ job.pcSize)
    (hop : 512 ∣ job.operateSize) (hparts : PartsInside job.pc job.pcSize job.sectorNum)
    {es : List (Event × Env)} (hrun : exec (step job) (init job) es = some h) :
    ∀ r ∈ h.agenda.requests, r.Inside job.pc job.pcSize := by
  intro r hr
  have hnone : h.agenda.requests ≠ [] := ne_nil_of_mem hr
  cases inv_of_exec hrun with
  | fresh hinit => exact absurd (congrArg (·.agenda.requests) hinit) hnone
  | reading k next halive hagenda hcursor hsent =>
    obtain ⟨rfl, -⟩ := hsent r (hagenda.of_mem_requests hr).1
    exact (PcJob.inside_of_partsInside hsize hsector hop hparts hcursor.more).1
  | writing k i next halive hagenda hcursor hsent =>
    obtain ⟨rfl, -⟩ := hsent r (hagenda.of_mem_requests hr).1
    exact (PcJob.inside_of_partsInside hsize hsector hop hparts hcursor.more).2 i
  | finished retcode hconnected hstarted hagenda hcopied => exact absurd hagenda.requests hnone
  | crashed hstarted husedMissing hconnections hrequests => exact absurd hrequests hnone

end DoHelaPcTask

/-! ### Every planned part is requested -/

/-- A pc that is read from koala; the ark server of its first shard is known. -/
def PcJob.ofKoala (pc pcSize operateSize : ℕ) (hpc : pc < 2 ^ 32) (hpcSize : pcSize < 2 ^ 64)
    (hoperateSize : operateSize < 2 ^ 32) : PcJob :=
  { PcJob.ofLocalChunk pc pcSize operateSize hpc hpcSize hoperateSize with
    srcType := .koala
    koalaRouters := (∅ : KoalaRouteMap).insert
      (int32 (uint64 (uint64 (pc * pcSize) / 512 * 512) / 4194304 : ℕ)) ⟨⟨"ark", 1000⟩, []⟩ }

namespace DoHelaPcTask

variable {pc pcSize operateSize : ℕ} {hpc : pc < 2 ^ 32} {hpcSize : pcSize < 2 ^ 64}
  {hoperateSize : operateSize < 2 ^ 32}

theorem decideKoalaSource_granting {job : PcJob} {h : DoHelaPcTask} {router : ShardChronoRouter}
    (hshard : job.shardSize ≠ 0)
    (hrouter : job.koalaRouters.lookup
      (int32 (uint64 (h.cursor.nextReadSector * 512) / job.shardSize : ℕ)) = some router)
    (connected : Bool) :
    ∃ h', decideKoalaSource job (.granting connected) true false h = some h' ∧
      h'.agenda.requests = h.agenda.requests ++
        [job.buildKoalaReadRequest h.cursor.nextReadSector job.sectorNum] := by
  simp only [decideKoalaSource, newKoalaSource, fillKoalaSourceRouter, if_neg hshard, hrouter]
  exact ⟨_, rfl, rfl⟩

theorem exists_readKoala (job : PcJob)
    (hjob : job = .ofKoala pc pcSize operateSize hpc hpcSize hoperateSize) :
    ∃ h, exec (step job) (init job) [(.start, .granting true)] = some h ∧
      job.buildKoalaReadRequest job.firstSector job.sectorNum ∈ h.agenda.requests := by
  have hrouter : job.koalaRouters.lookup
      (int32 (uint64 (job.firstSector * 512) / job.shardSize : ℕ)) =
        some ⟨⟨"ark", 1000⟩, []⟩ := by
    subst hjob
    exact AList.lookup_insert _
  have hshard : job.shardSize ≠ 0 := hjob ▸ Nat.succ_ne_zero 4194303
  have hkoala : (init job).srcType = .koala := hjob ▸ rfl
  obtain ⟨h', hstart, hrequests⟩ := decideKoalaSource_granting (h := { init job with
    started := true
    clusterVersion := uint32 job.clusterVersion
    sourceOffline := job.sourceOffline
    cursor := { (init job).cursor with
      infoList := job.infoList
      iter := 0
      nextReadSector := job.firstSector
      endSector := job.endSector } }) hshard hrouter true
  refine ⟨h', exec_cons_eq_some.mpr ⟨h', (if_pos hkoala).trans hstart, rfl⟩, ?_⟩
  rw [hrequests]
  exact mem_append_right _ (mem_singleton_self _)

section Copying

variable {job : PcJob} {h : DoHelaPcTask} {k : ℕ}

/-- A handle of a local chunk with one target is at the `k`-th part, and waits for the answer to a
request. -/
structure Copying (job : PcJob) (h : DoHelaPcTask) (k : ℕ) (r : Request) : Prop where
  usedMissing : h.usedMissing = false
  srcType : h.srcType = .localChunk
  clusterVersion : h.clusterVersion = 1
  sourceOffline : h.sourceOffline = false
  infoList : h.cursor.infoList = [⟨6, false⟩]
  iter : h.cursor.iter = 0
  endSector : h.cursor.endSector = job.endSector
  requested : h.cursor.Requested job k
  requests : h.agenda.requests = [r]

theorem checkCluster_granting (hversion : h.clusterVersion = 1) (connected : Bool) :
    checkCluster job (.granting connected) h = (h.sourceOffline, h) := by
  have hsame : ¬h.clusterVersion ≠ (Env.granting connected).clusterVersion := not_not.mpr hversion
  simp only [checkCluster, if_neg hsame]

theorem readDataFromChunk_granting (hversion : h.clusterVersion = 1)
    (honline : h.sourceOffline = false) (connected : Bool) :
    readDataFromChunk job (.granting connected) h =
      { h with cursor := { h.cursor with
        startSector := h.cursor.nextReadSector, sectorNum := job.sectorNum } }.sendRequest
          (job.buildChunkReadRequest h.cursor.nextReadSector) := by
  simp only [readDataFromChunk, checkCluster_granting hversion, honline]
  rfl

theorem handleWriteChunk_granting (job : PcJob) (hversion : h.clusterVersion = 1)
    (honline : h.sourceOffline = false) (hinfo : h.cursor.infoList = [⟨6, false⟩])
    (hiter : h.cursor.iter = 0) {data : Request} (hdata : h.cursor.buffer = some data) :
    handleWriteChunk job (.granting true) h =
      some ({ h with connections := h.connections ++ [true] }.sendRequest
        (job.buildChunkWriteRequest 0 h.cursor.startSector data)) := by
  simp only [handleWriteChunk, hinfo, hiter, length_singleton,
    handleWriteChunkLoop, checkCluster_granting hversion, honline, writeDataToChunk, hdata]
  rfl

theorem handleWriteChunk_of_written (job : PcJob) (env : Env)
    (hinfo : h.cursor.infoList = [⟨6, false⟩]) (hiter : h.cursor.iter = 1) :
    handleWriteChunk job env h =
      readNextPart job env { h with cursor := { h.cursor with buffer := none, iter := 0 } } := by
  simp only [handleWriteChunk, hinfo, hiter, length_singleton, Nat.sub_self,
    handleWriteChunkLoop]

theorem copying_start
    (hjob : job = .ofLocalChunk pc pcSize operateSize hpc hpcSize hoperateSize) :
    ∃ h, step job (init job) (.start, .granting true) = some h ∧
      Copying job h 0 (job.buildChunkReadRequest (job.partStart 0)) := by
  have hzero : job.partStart 0 = job.firstSector := by rw [PcJob.partStart, zero_mul]; rfl
  subst hjob
  refine ⟨_, congrArg some (readDataFromChunk_granting rfl rfl true), ?_⟩
  rw [hzero]
  exact ⟨rfl, rfl, rfl, rfl, rfl, rfl, rfl, ⟨hzero.symm, rfl⟩, rfl⟩

variable {r : Request}

theorem Copying.mem_requests (hpart : Copying job h k r) :
    r ∈ h.agenda.requests ∧ h.agenda.requests.erase r = [] := by
  rw [hpart.requests]
  exact ⟨mem_singleton_self r, erase_cons_head r []⟩

theorem Copying.read (hr : r = job.buildChunkReadRequest (job.partStart k))
    (hpart : Copying job h k r) :
    ∃ h', step job h (.readResponse (job.offset (job.partStart k)) job.operateSize .ok,
        .granting true) = some h' ∧
      Copying job h' k (job.buildChunkWriteRequest 0 (job.partStart k) r) := by
  obtain ⟨hmem, herase⟩ := hpart.mem_requests
  have hwrite := handleWriteChunk_granting job
    (h := { h.removeRequest r with cursor := { h.cursor with
      succeeded := r :: h.cursor.succeeded, buffer := some r } })
    hpart.clusterVersion hpart.sourceOffline hpart.infoList hpart.iter rfl
  rw [hpart.requested.1] at hwrite
  subst hr
  refine ⟨_, (if_neg (by simp [hpart.usedMissing])).trans ((if_pos hmem).trans hwrite), ?_⟩
  exact { hpart with requests := congrArg (· ++ _) herase }

/-- The answer to a write leads to the read of the next part. -/
theorem Copying.written (hpart : Copying job h k (job.buildChunkWriteRequest 0 (job.partStart k) r))
    (hmore : job.partStart (k + 1) < job.endSector) :
    ∃ h', step job h (.writeResponse 0 (job.offset (job.partStart k)) job.operateSize r .ok,
        .granting true) = some h' ∧
      Copying job h' (k + 1) (job.buildChunkReadRequest (job.partStart (k + 1))) := by
  obtain ⟨hmem, herase⟩ := hpart.mem_requests
  have hiter : h.cursor.iter < h.cursor.infoList.length := by
    rw [hpart.iter, hpart.infoList]
    exact one_pos
  -- the start of the next part fits its word
  have hnext : uint64 (h.cursor.startSector + h.cursor.sectorNum) = job.partStart (k + 1) := by
    have hlt := hmore.trans job.endSector_lt
    rw [hpart.requested.1, hpart.requested.2, ← job.partStart_succ]
    exact uint64_eq_self (hlt.trans (by decide))
  have hwritten := handleWriteChunk_of_written job (.granting true)
    (h := { h.removeRequest (job.buildChunkWriteRequest 0 (job.partStart k) r) with
      cursor := { h.cursor with
        succeeded := job.buildChunkWriteRequest 0 (job.partStart k) r :: h.cursor.succeeded
        iter := h.cursor.iter + 1 }
      backOff := h.backOff.reportSuccess })
    hpart.infoList (congrArg (· + 1) hpart.iter)
  have hlt : job.partStart (k + 1) < h.cursor.endSector := hmore.trans_eq hpart.endSector.symm
  have hchunk : ¬h.srcType = .koala := by simp [hpart.srcType]
  simp only [readNextPart, removeRequest, hnext, if_pos hlt, readAgain, if_neg hchunk] at hwritten
  rw [readDataFromChunk_granting (by exact hpart.clusterVersion) (by exact hpart.sourceOffline)]
    at hwritten
  refine ⟨_, (if_neg (by simp [hpart.usedMissing])).trans ((if_pos hmem).trans
    ((if_pos hiter).trans hwritten)), ?_⟩
  exact { hpart with iter := rfl, requested := ⟨rfl, rfl⟩, requests := congrArg (· ++ _) herase }

/-- **Every planned part** of a local chunk is requested in some run. -/
theorem exists_copying
    (hjob : job = .ofLocalChunk pc pcSize operateSize hpc hpcSize hoperateSize)
    (hplan : ∀ j < k, job.partStart (j + 1) < job.endSector) :
    ∃ es h, exec (step job) (init job) es = some h ∧
      Copying job h k (job.buildChunkReadRequest (job.partStart k)) := by
  induction k with
  | zero =>
    obtain ⟨h, hstep, hpart⟩ := copying_start hjob
    exact ⟨[(.start, .granting true)], h, exec_cons_eq_some.mpr ⟨h, hstep, rfl⟩, hpart⟩
  | succ k ih =>
    obtain ⟨es, h, hrun, hpart⟩ := ih fun j hj => hplan j (hj.trans k.lt_succ_self)
    obtain ⟨h₁, hread, hpart₁⟩ := hpart.read rfl
    obtain ⟨h₂, hwritten, hpart₂⟩ := hpart₁.written (hplan k k.lt_succ_self)
    have hpair := exec_cons_eq_some.mpr
      ⟨h₁, hread, exec_cons_eq_some.mpr ⟨h₂, hwritten, exec_nil h₂⟩⟩
    exact ⟨_, h₂, exec_append_eq_some.mpr ⟨h, hrun, hpair⟩, hpart₂⟩

end Copying

end DoHelaPcTask

/-! ### All configurations -/

/-- Every request of every run of a task with these numbers stays in the pc. -/
def RequestsInside (pc pcSize operateSize : ℕ) : Prop :=
  ∀ job : PcJob, job.pc = pc → job.pcSize = pcSize → job.operateSize = operateSize →
    ∀ es h, exec (DoHelaPcTask.step job) (.init job) es = some h →
      ∀ r ∈ h.agenda.requests, r.Inside pc pcSize

section Requests

variable {pc pcSize operateSize : ℕ}

theorem RequestsInside.first (h : RequestsInside pc pcSize operateSize) (hpc : pc < 2 ^ 32)
    (hpcSize : pcSize < 2 ^ 64) (hoperateSize : operateSize < 2 ^ 32) (hsector : 512 ∣ pcSize)
    (hpos : 0 < operateSize / 512) :
    pc * pcSize < 2 ^ 64 ∧ operateSize / 512 ≤ pcSize / 512 := by
  obtain ⟨t, hrun, hmem⟩ := DoHelaPcTask.exists_readKoala
    (.ofKoala pc pcSize operateSize hpc hpcSize hoperateSize) rfl
  have hinside := h _ rfl rfl rfl _ t hrun _ hmem
  have hmul : ∀ n, n * pcSize / 512 = n * (pcSize / 512) := fun n => Nat.mul_div_assoc n hsector
  have hfirst : pc * pcSize < 2 ^ 64 := by
    by_contra hover
    -- a first sector that was reduced lies before the pc
    have hle := (hinside _ le_rfl (Nat.lt_add_of_pos_right hpos)).1
    have hlt := (PcJob.ofKoala pc pcSize operateSize hpc hpcSize hoperateSize).firstSector_lt
    have hge : 2 ^ 64 / 512 ≤ pc * pcSize / 512 := Nat.div_le_div_right (not_lt.mp hover)
    omega
  refine ⟨hfirst, ?_⟩
  have hstart : (PcJob.ofKoala pc pcSize operateSize hpc hpcSize hoperateSize).firstSector =
      pc * (pcSize / 512) := PcJob.firstSector_eq hsector hfirst
  rw [hstart] at hinside
  have hlast := (hinside (pc * (pcSize / 512) + (operateSize / 512 - 1)) (Nat.le_add_right _ _)
    (Nat.add_lt_add_left (Nat.sub_lt hpos Nat.one_pos) _)).2
  rw [hmul, add_mul, one_mul] at hlast
  omega

/-- If all requests stay in the pc, the parts divide it. -/
theorem RequestsInside.dvd (h : RequestsInside pc pcSize operateSize) (hpc : pc < 2 ^ 32)
    (hpcSize : pcSize < 2 ^ 64) (hoperateSize : operateSize < 2 ^ 32) (hsize : 0 < pcSize)
    (hsector : 512 ∣ pcSize) (hop : 512 ∣ operateSize) (hpos : 0 < operateSize / 512)
    (hfirst : pc * pcSize < 2 ^ 64) (hend : pc + 1 < 2 ^ 32 ∧ (pc + 1) * pcSize < 2 ^ 64) :
    operateSize / 512 ∣ pcSize / 512 := by
  obtain ⟨job, hjob⟩ :
      ∃ job, job = PcJob.ofLocalChunk pc pcSize operateSize hpc hpcSize hoperateSize := ⟨_, rfl⟩
  have hstart : ∀ k, job.partStart k = pc * (pcSize / 512) + k * (operateSize / 512) := by
    intro k
    rw [PcJob.partStart, PcJob.firstSector_eq (hjob ▸ hsector) (hjob ▸ hfirst), hjob]
    rfl
  have hendSector : job.endSector = pc * (pcSize / 512) + pcSize / 512 := by
    rw [PcJob.endSector_eq (hjob ▸ hsector) (hjob ▸ hend), add_mul, one_mul, hjob]
    rfl
  have hsectors : 0 < pcSize / 512 := Nat.div_pos (Nat.le_of_dvd hsize hsector) (by decide)
  -- the last part is the one with the last sector
  have hle := Nat.div_mul_le_self (pcSize / 512 - 1) (operateSize / 512)
  have hlt : (pcSize / 512 - 1) / (operateSize / 512) * (operateSize / 512) < pcSize / 512 := by
    omega
  obtain ⟨es, t, hrun, hpart⟩ := DoHelaPcTask.exists_copying
    (k := (pcSize / 512 - 1) / (operateSize / 512)) hjob fun j hj => by
      rw [hstart, hendSector]
      exact Nat.add_lt_add_left ((Nat.mul_le_mul_right _ hj).trans_lt hlt) _
  have hinside := h job (hjob ▸ rfl) (hjob ▸ rfl) (hjob ▸ rfl) es t hrun _ hpart.mem_requests.1
  have hoffset : job.offset (job.partStart ((pcSize / 512 - 1) / (operateSize / 512))) =
      (pcSize / 512 - 1) / (operateSize / 512) * (operateSize / 512) * 512 := by
    rw [hstart, hjob]
    exact PcJob.offset_eq hlt
  have hbound : job.offset (job.partStart ((pcSize / 512 - 1) / (operateSize / 512))) +
      operateSize ≤ pcSize := by
    subst hjob
    exact hinside
  rw [hoffset] at hbound
  have hreach := Nat.lt_div_mul_add (a := pcSize / 512 - 1) hpos
  refine ⟨(pcSize / 512 - 1) / (operateSize / 512) + 1, ?_⟩
  rw [mul_comm, add_mul, one_mul]
  omega

end Requests

/-- **The requests of a pc task** stay in its pc, for all runs of all tasks with the pc number and
size and the configured value, exactly when the parts do. -/
theorem requests_inside_iff (pc pcSize : ℕ) (value : ℤ) (hpc : pc < 2 ^ 32) (hsize : 0 < pcSize)
    (hpcSize : pcSize < 2 ^ 64) (hsector : 512 ∣ pcSize) :
    RequestsInside pc pcSize (operateSize value) ↔
      PartsInside pc pcSize (operateSize value / 512) := by
  have hop := dvd_operateSize value
  have hlt := operateSize_lt value
  constructor
  · intro h
    refine or_iff_not_imp_left.mpr fun hne => ?_
    have hpos : 0 < operateSize value / 512 := pos_of_ne_zero hne
    obtain ⟨hfirst, hle⟩ := h.first hpc hpcSize hlt hsector hpos
    refine ⟨hfirst, ?_⟩
    split
    next hend => exact h.dvd hpc hpcSize hlt hsize hsector hop hpos hfirst hend
    next hend => exact hle
  · rintro hparts job rfl rfl hvalue es h hrun
    rw [← hvalue] at hparts hop
    exact DoHelaPcTask.inside_of_exec hsize hsector hop hparts hrun

/-- The default of 2048 sectors divides a pc of 4 MiB. -/
theorem requests_inside_default :
    PartsInside 1 4194304 (operateSize 0 / 512) ∧ RequestsInside 1 4194304 (operateSize 0) :=
  have hparts : PartsInside 1 4194304 (operateSize 0 / 512) := by decide
  ⟨hparts, (requests_inside_iff 1 4194304 0 (by decide) (by decide) (by decide)
    (by decide)).mpr hparts⟩

/-- With 3000 sectors the third part of a pc of 4 MiB is read up to the offset 4608000. -/
theorem request_outside_of_3000 :
    operateSize 3000 = 1536000 ∧
      ∃ h, exec (DoHelaPcTask.step
          (.ofLocalChunk 0 4194304 1536000 (by decide) (by decide) (by decide)))
          (.init (.ofLocalChunk 0 4194304 1536000 (by decide) (by decide) (by decide)))
          ((.start, .granting true) :: (DoHelaPcTask.copyPart 1536000 0 ++
            DoHelaPcTask.copyPart 1536000 1536000)) = some h ∧
        .readChunk 3072000 1536000 ∈ h.agenda.requests ∧
        ¬Request.Inside 0 4194304 (.readChunk 3072000 1536000) :=
  ⟨by decide, exists_exec_mono (P := fun h => .readChunk 3072000 1536000 ∈ h.agenda.requests)
    (by decide +kernel) fun _ _ hmem => ⟨hmem, show ¬3072000 + 1536000 ≤ 4194304 by decide⟩⟩

end Hela
