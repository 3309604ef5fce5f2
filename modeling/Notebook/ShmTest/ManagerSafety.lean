import Notebook.ShmTest.Attachment
import Notebook.ShmTest.ShmManager

/-!
# The blocks that the calls of a manager touch

Any number of processes use one `ShmManager` each, with the calls `CreateSegment`, `RequestMemory`,
`WriteFinish`, `HoldMemory` and `ReleaseMemory` (`shm_src/shm_manager.cpp`) in any order, whatever
the calls before have returned. The calls reach `m_blocks[index]` and `m_blockBufAddrs[index]` in
the functions of `AllocMemoryBase` (`shm_src/alloc_memory_base.cpp`), with an index that the caller
gives or that comes from the counter of the segment.

The two release functions do not ask whether a segment is attached: after a `HoldMemory` that has
failed to open or to map the object, they dereference the null pointer `m_blocks`.
`AcquireBlockToRead` compares the index before it maps the object again, and the object it then
finds can have fewer blocks. Everything else is in range.

## Main definitions

* `ManagerCall.accesses` — the accesses of a call, and `Access.Safe`: they are in range.
* `ManagerCall.InRange` — the condition on a call.
* `Managers.Sane` — the handles of all managers agree with their objects.

## Main results

* `Managers.sane_run` — the handles agree with their objects after every run.
* `safe_iff_inRange` — a call is safe exactly if it is in range.
-/

open Interleaving Container List Option Threads

namespace ShmTest

/-! ### Calls -/

/-- The index of a `MemBlock` in a `WritableBlock` or a `ReadableBlock`, where it is a `uint32_t`.
-/
def MemBlock.blockIndex (memblock : MemBlock) : ℕ := (memblock.index % 2 ^ 32).toNat

/-- The calls of a manager, with what the environment decides in each of them. -/
inductive ManagerCall
  | createSegment (files : String → Option (Option (List ConfigNode)))
      (order : Map String ShmQosProp → List String) (os : String → List Os) (path : String)
  | requestMemory (spurious : List (Bool × Bool)) (topic : String) (memblock : MemBlock)
  | writeFinish (topic : String) (memblock : MemBlock)
  | holdMemory (env : ReadEnv) (topic : String) (memblock : MemBlock)
  | releaseMemory (topic : String) (memblock : MemBlock)

/-- What a call makes of the objects and of the manager, if it returns. -/
def ManagerCall.run (pid : ℕ) (hash : String → ℕ) (m : Store) (s : Manager) :
    ManagerCall → Option (Store × Manager)
  | createSegment files order os path =>
    (s.createSegment pid hash files order os path m).map fun r => (r.2.2, r.2.1)
  | requestMemory spurious topic memblock =>
    (s.requestMemory spurious topic memblock m).map fun r => (r.2.2.2, r.2.2.1)
  | writeFinish topic memblock => (s.writeFinish topic memblock m).map fun r => (r.2, s)
  | holdMemory env topic memblock =>
    (s.holdMemory pid hash env topic memblock m).map fun r => (r.2.2.2, r.2.2.1)
  | releaseMemory topic memblock => (s.releaseMemory topic memblock m).map fun r => (r.2, s)

/-- A call of a process, or the death of one. -/
inductive ManagerEvent (P : Type*)
  | call (p : P) (c : ManagerCall)
  | die (pid : ℕ)

/-- The managers of the processes and the objects. -/
abbrev Managers (P : Type*) : Type _ := Threads Store P Manager

/-- No objects exist, and no manager has been used. -/
def Managers.init (P : Type*) : Managers P := ⟨Manager.noObjects, fun _ => Manager.empty⟩

/-- One event, where `pid p` is the id of the process `p`. A process that has died does nothing. -/
def Managers.step {P : Type*} [DecidableEq P] (pid : P → ℕ) (hash : String → ℕ) (s : Managers P) :
    ManagerEvent P → Option (Managers P)
  | .call p c =>
    if s.mem.dead (pid p) then none
    else Threads.step (fun m s (c : ManagerCall) => c.run (pid p) hash m s) s (p, c)
  | .die p => some { s with mem := { s.mem with dead := Function.update s.mem.dead p true } }

/-! ### Accesses -/

/-- An access to `m_blocks[index]` or `m_blockBufAddrs[index]`, with the block count of the segment
that is attached; there is none when `m_blocks` is null. -/
structure Access where
  blockCount : Option ℕ
  index : ℕ
deriving DecidableEq, Repr

/-- A segment is attached, and the index is below its block count. -/
def Access.Safe (a : Access) : Prop := ∃ n, a.blockCount = some n ∧ a.index < n
deriving Decidable

/-- The access to a block through a handle. -/
def accessTo (m : Store) (h : Handle) (index : ℕ) : Access :=
  ⟨(m.segment h).map Segment.blockNum, index⟩

/-- The accesses of `ReleaseWrittenBlock` and of `ReleaseReadBlock`. -/
def releaseAccesses (m : Store) (h : Handle) (index : ℕ) : List Access :=
  if h.conf.blockNum ≤ index then [] else [accessTo m h index]

/-- The accesses of `AcquireBlockToRead`. -/
def readAccesses (env : ReadEnv) (m : Store) (h : Handle) (index : ℕ) : List Access :=
  let r := openOnly env.openOnly m h
  let m := r.2.1
  let h := r.2.2
  if !r.1 then []
  else if h.conf.blockNum ≤ index then []
  else
    match m.segment h with
    | none => []
    | some seg =>
      if seg.needRemap then
        let r := remap env.remap m h
        if !r.1 then [] else [accessTo r.2.1 r.2.2 index]
      else [accessTo m h index]

/-- The blocks that `GetNextWritableBlockIndex` tries, up to the one it returns. -/
def triedBlocks (self blockNum obj : ℕ) : List (Bool × Bool) → Store → List ℕ
  | [], _ => []
  | spurious :: rest, m =>
    if blockNum = 0 then []
    else
      match m.shm obj with
      | none => []
      | some seg =>
        let tryIdx := seg.seq % blockNum
        let seg := { seg with seq := uint32 (seg.seq + 1) }
        match seg.blocks[tryIdx]? with
        | none => [tryIdx]
        | some b =>
          let r := (b.mem m.dead).lock self .write spurious
          let m := m.setBlock obj seg tryIdx r.2.block
          if r.1 then [tryIdx] else tryIdx :: triedBlocks self blockNum obj rest m

/-- The accesses of `AcquireBlockToWrite`. The block that it returns is the last that was tried. -/
def writeAccesses (spurious : List (Bool × Bool)) (m : Store) (h : Handle) (msgSize : ℕ) :
    List Access :=
  if !h.init then []
  else if h.conf.ceilingMsgSize < msgSize then []
  else
    match h.obj with
    | none => []
    | some obj => (triedBlocks h.pid h.conf.blockNum obj spurious m).map (accessTo m h)

namespace ManagerCall

/-- The accesses of a call. `CreateSegment` fills the addresses of the blocks it makes and touches
no block by an index. -/
def accesses (pid : ℕ) (hash : String → ℕ) (m : Store) (s : Manager) : ManagerCall → List Access
  | createSegment .. => []
  | requestMemory spurious topic memblock =>
    match s.segMap.lookup topic with
    | none => []
    | some h => writeAccesses spurious m h memblock.size
  | writeFinish topic memblock | releaseMemory topic memblock =>
    match s.segMap.lookup topic with
    | none => []
    | some h => releaseAccesses m h memblock.blockIndex
  | holdMemory env topic memblock =>
    readAccesses env m (s.handle pid hash topic) memblock.blockIndex

/-- `WriteFinish` and `ReleaseMemory` with an index below the block count of the handle find the
handle attached, and a `HoldMemory` that maps its object again finds the index below the block count
of the object that it then has. -/
def InRange (pid : ℕ) (hash : String → ℕ) (m : Store) (s : Manager) : ManagerCall → Prop
  | createSegment .. => True
  | requestMemory .. => True
  | writeFinish topic memblock | releaseMemory topic memblock =>
    ∀ h ∈ s.segMap.lookup topic, memblock.blockIndex < h.conf.blockNum → h.init = true
  | holdMemory env topic memblock =>
    let r := openOnly env.openOnly m (s.handle pid hash topic)
    r.1 = true → FindsNeedRemap r.2.1 r.2.2 memblock.blockIndex →
      (remap env.remap r.2.1 r.2.2).1 = true →
        memblock.blockIndex < (remap env.remap r.2.1 r.2.2).2.2.conf.blockNum

end ManagerCall

/-! ### All handles agree with their objects -/

/-- The handles of a manager agree with their objects. -/
def Manager.Sane (s : Manager) (m : Store) : Prop :=
  ∀ topic h, s.segMap.lookup topic = some h → h.Sane m

section Calls

variable {pid : ℕ} {hash : String → ℕ} {m m' : Store} {s s' : Manager} {topic : String}

theorem Manager.Sane.evolves (hs : s.Sane m) (hm : m.Evolves m') : s.Sane m' :=
  fun topic h hsome => (hs topic h hsome).evolves hm

theorem Manager.Sane.insert (hs : s.Sane m) {h : Handle} (hh : h.Sane m) (topic : String) :
    Manager.Sane { s with segMap := s.segMap.insert topic h } m := by
  intro topic' h' hsome
  rcases lookup_insert_eq_some_iff.mp hsome with ⟨-, rfl⟩ | ⟨-, hsome⟩
  · exact hh
  · exact hs topic' h' hsome

theorem Manager.Sane.handle (hs : s.Sane m) (pid : ℕ) (hash : String → ℕ) (topic : String) :
    (s.handle pid hash topic).Sane m := by
  rw [Manager.handle]
  cases hlookup : s.segMap.lookup topic with
  | none => exact Handle.sane_of_not_init rfl rfl
  | some h => exact hs topic h hlookup

variable {os : String → List Os}

variable (hm : m.Sane)

include hm

theorem createTopic_sane (hs : s.Sane m)
    (hcall : s.createTopic pid hash os topic m = some (s', m')) : m.Evolves m' ∧ s'.Sane m' := by
  rw [Manager.createTopic] at hcall
  split at hcall
  · cases hcall
    exact ⟨.refl hm, hs⟩
  split at hcall
  · cases hcall
    exact ⟨.refl hm, hs⟩
  split at hcall
  · cases hcall
  · rename_i hcreate
    cases hcall
    obtain ⟨hevolves, -⟩ := sane_kept.create hm (Handle.sane_of_not_init rfl rfl) hcreate
    exact ⟨hevolves, hs.evolves hevolves⟩
  · rename_i hcreate
    cases hcall
    obtain ⟨hevolves, hh⟩ := sane_kept.create hm (Handle.sane_of_not_init rfl rfl) hcreate
    exact ⟨hevolves, (hs.evolves hevolves).insert hh topic⟩

theorem createTopics_sane {topics : List String} (hs : s.Sane m)
    (hcall : s.createTopics pid hash os topics m = some (s', m')) :
    m.Evolves m' ∧ s'.Sane m' := by
  induction topics generalizing s m with
  | nil =>
    cases hcall
    exact ⟨.refl hm, hs⟩
  | cons topic topics ih =>
    obtain ⟨⟨s₁, m₁⟩, hround, hrest⟩ := bind_eq_some_iff.mp hcall
    obtain ⟨hevolves, hs₁⟩ := createTopic_sane hm hs hround
    obtain ⟨hevolves', hs'⟩ := ih hevolves.sane hs₁ hrest
    exact ⟨hevolves.trans hevolves', hs'⟩

variable {ok : Bool}

theorem createSegment_sane {files : String → Option (Option (List ConfigNode))}
    {order : Map String ShmQosProp → List String} {path : String}
    (hs : s.Sane m)
    (hcall : s.createSegment pid hash files order os path m = some (ok, s', m')) :
    m.Evolves m' ∧ s'.Sane m' := by
  rw [Manager.createSegment] at hcall
  split at hcall
  · cases hcall
  · cases hcall
    exact ⟨.refl hm, hs⟩
  · rename_i propMap hload
    obtain ⟨⟨s₁, m₁⟩, htopics, hres⟩ := map_eq_some_iff.mp hcall
    cases hres
    exact createTopics_sane hm (s := { s with propMap }) hs htopics

theorem requestMemory_sane {spurious : List (Bool × Bool)} {req req' : MemBlock} (hs : s.Sane m)
    (hcall : s.requestMemory spurious topic req m = some (ok, req', s', m')) :
    m.Evolves m' ∧ s'.Sane m' := by
  rw [Manager.requestMemory] at hcall
  split at hcall
  · cases hcall
    exact ⟨.refl hm, hs⟩
  rename_i h hlookup
  split at hcall
  · cases hcall
  rename_i out m₁ h₁ hacquire
  obtain ⟨hsame, rfl⟩ := acquireBlockToWrite_sameHeaders hacquire
  have hevolves := hsame.evolves hm
  have hinsert := (hs.evolves hevolves).insert ((hs topic h₁ hlookup).evolves hevolves) topic
  simp only at hcall
  split at hcall <;> cases hcall <;> exact ⟨hevolves, hinsert⟩

theorem release_sane {release : Mem → Mem} {memblock : MemBlock}
    (hcall : s.release (releaseBlock release) topic memblock m = some (ok, m')) :
    m.Evolves m' := by
  rw [Manager.release] at hcall
  split at hcall
  · cases hcall
    exact .refl hm
  · exact (releaseBlock_sameHeaders hcall).evolves hm

theorem holdMemory_sane {env : ReadEnv} {memblock memblock' : MemBlock} (hs : s.Sane m)
    (hcall : s.holdMemory pid hash env topic memblock m = some (ok, memblock', s', m')) :
    m.Evolves m' ∧ s'.Sane m' := by
  rw [Manager.holdMemory] at hcall
  split at hcall
  · cases hcall
  rename_i out m₁ h₁ hacquire
  obtain ⟨hevolves, hh⟩ := sane_kept.acquireBlockToRead hm (hs.handle pid hash topic) hacquire
  have hinsert := (hs.evolves hevolves).insert hh topic
  simp only at hcall
  split at hcall <;> cases hcall <;> exact ⟨hevolves, hinsert⟩

theorem ManagerCall.run_sane {c : ManagerCall} (hs : s.Sane m)
    (hcall : c.run pid hash m s = some (m', s')) : m.Evolves m' ∧ s'.Sane m' := by
  cases c with
  | createSegment files order os path =>
    obtain ⟨⟨ok, s', m'⟩, hrun, ⟨⟩⟩ := map_eq_some_iff.mp hcall
    exact createSegment_sane hm hs hrun
  | requestMemory spurious topic memblock =>
    obtain ⟨⟨ok, memblock', s', m'⟩, hrun, ⟨⟩⟩ := map_eq_some_iff.mp hcall
    exact requestMemory_sane hm hs hrun
  | holdMemory env topic memblock =>
    obtain ⟨⟨ok, memblock', s', m'⟩, hrun, ⟨⟩⟩ := map_eq_some_iff.mp hcall
    exact holdMemory_sane hm hs hrun
  | writeFinish topic memblock | releaseMemory topic memblock =>
    obtain ⟨⟨ok, m'⟩, hrun, ⟨⟩⟩ := map_eq_some_iff.mp hcall
    have hevolves := release_sane hm hrun
    exact ⟨hevolves, hs.evolves hevolves⟩

end Calls

/-- The objects are as they should be, and the handles of all managers agree with them. -/
structure Managers.Sane {P : Type*} (s : Managers P) : Prop where
  mem : s.mem.Sane
  pc : ∀ p, (s.pc p).Sane s.mem

section Runs

variable {P : Type*} [DecidableEq P] {pid : P → ℕ} {hash : String → ℕ} {s s' : Managers P}

omit [DecidableEq P] in
theorem Managers.sane_init : (Managers.init P).Sane where
  mem := ⟨fun _ _ h => (by cases h), fun _ _ h => (by cases h)⟩
  pc := fun _ _ _ h => by cases h

theorem Managers.Sane.step {e : ManagerEvent P} (hs : s.Sane)
    (h : Managers.step pid hash s e = some s') : s'.Sane := by
  cases e with
  | die p =>
    obtain rfl := some.inj h
    refine ⟨⟨hs.mem.lt_next, hs.mem.length⟩, fun q => (hs.pc q).evolves ?_⟩
    exact ⟨⟨hs.mem.lt_next, hs.mem.length⟩, fun _ seg hseg => ⟨seg, hseg, rfl⟩⟩
  | call p c =>
    rw [Managers.step] at h
    split_ifs at h
    obtain ⟨hevolves, hp⟩ :=
      ManagerCall.run_sane hs.mem (hs.pc p) (prog_of_step h)
    refine ⟨hevolves.sane, fun q => ?_⟩
    by_cases hq : q = p
    · exact hq ▸ hp
    · rw [pc_of_ne h hq]
      exact (hs.pc q).evolves hevolves

/-- **The handles of all managers agree with their objects** after every run. -/
theorem Managers.sane_run {es : List (ManagerEvent P)}
    (h : exec (Managers.step pid hash) (Managers.init P) es = some s) : s.Sane :=
  exec_invariant Managers.Sane (fun _ _ _ hs => hs.step) Managers.sane_init h

end Runs

/-! ### Which accesses are in range -/

section Safe

variable {m : Store} {h : Handle} {index : ℕ}

theorem accessTo_safe_iff (hh : h.Sane m) :
    (accessTo m h index).Safe ↔ h.init = true ∧ index < h.conf.blockNum := by
  cases hinit : h.init with
  | false => simp [Access.Safe, accessTo, Store.segment, hh.obj_eq_none hinit]
  | true =>
    obtain ⟨obj, seg, hmaps⟩ := hh.maps hinit
    simp [Access.Safe, accessTo, hmaps.segment, hmaps.blockNum]

theorem releaseAccesses_safe_iff (hh : h.Sane m) :
    (∀ a ∈ releaseAccesses m h index, a.Safe) ↔ (index < h.conf.blockNum → h.init = true) := by
  rw [releaseAccesses]
  split_ifs with hindex
  · simp [hindex.not_gt]
  · simp [accessTo_safe_iff hh, not_le.mp hindex]

theorem triedBlocks_lt {self blockNum obj : ℕ} {spurious : List (Bool × Bool)} {m : Store} {i : ℕ}
    (hi : i ∈ triedBlocks self blockNum obj spurious m) : i < blockNum := by
  induction spurious generalizing m with
  | nil => cases hi
  | cons spurious rest ih =>
    rw [triedBlocks] at hi
    split at hi
    · cases hi
    rename_i hpos
    split at hi
    · cases hi
    rename_i seg hseg
    have hlt : seg.seq % blockNum < blockNum := Nat.mod_lt _ (Nat.pos_of_ne_zero hpos)
    simp only at hi
    split at hi
    · exact mem_singleton.mp hi ▸ hlt
    split at hi
    · exact mem_singleton.mp hi ▸ hlt
    · rcases mem_cons.mp hi with rfl | hi
      · exact hlt
      · exact ih hi

/-- `AcquireBlockToWrite` asks whether the handle is initialised, and takes the index modulo the
block count. -/
theorem writeAccesses_safe (hh : h.Sane m) (spurious : List (Bool × Bool)) (msgSize : ℕ) :
    ∀ a ∈ writeAccesses spurious m h msgSize, a.Safe := by
  intro a ha
  rw [writeAccesses] at ha
  split at ha
  · cases ha
  rename_i hinit
  split at ha
  · cases ha
  split at ha
  · cases ha
  obtain ⟨i, hi, rfl⟩ := mem_map.mp ha
  exact (accessTo_safe_iff hh).mpr ⟨by simpa using hinit, triedBlocks_lt hi⟩

theorem readAccesses_safe_iff (env : ReadEnv) (hm : m.Sane) (hh : h.Sane m) :
    (∀ a ∈ readAccesses env m h index, a.Safe) ↔
      ((openOnly env.openOnly m h).1 = true →
        FindsNeedRemap (openOnly env.openOnly m h).2.1 (openOnly env.openOnly m h).2.2 index →
        (remap env.remap (openOnly env.openOnly m h).2.1 (openOnly env.openOnly m h).2.2).1 = true →
        index < (remap env.remap (openOnly env.openOnly m h).2.1
          (openOnly env.openOnly m h).2.2).2.2.conf.blockNum) := by
  obtain ⟨hopen, hopened⟩ := sane_kept.openOnly env.openOnly hm hh
  have hinit := openOnly_init (m := m) (h := h) env.openOnly
  rw [readAccesses]
  generalize openOnly env.openOnly m h = r at hopen hopened hinit
  simp only
  cases hok : r.1 with
  | false => simp
  | true =>
    have hinit := hinit hok
    by_cases hindex : r.2.2.conf.blockNum ≤ index
    · simp [hindex, FindsNeedRemap, hindex.not_gt]
    obtain ⟨obj, seg, hmaps⟩ := hopened.maps hinit
    have hsegment := hmaps.segment
    cases hflag : seg.needRemap with
    | false =>
      simp [hindex, hsegment, hflag, FindsNeedRemap, accessTo_safe_iff hopened, hinit,
        not_le.mp hindex]
    | true =>
      obtain ⟨-, hremapped⟩ := sane_kept.remap env.remap hopen.sane r.2.2
      cases hok' : (remap env.remap r.2.1 r.2.2).1 with
      | false => simp [hindex, hsegment, hflag]
      | true =>
        simp [hindex, hsegment, hflag, FindsNeedRemap, accessTo_safe_iff hremapped,
          remap_init env.remap hok', not_le.mp hindex]

end Safe

/-- **Which calls stay in range.** After every run of calls, in any order and whatever they have
returned, all accesses of a call are to a segment that is attached, below its block count, exactly
when the call meets the condition: a release with an index below the block count of its handle finds
the handle attached, and a `HoldMemory` that maps its object again finds the index below the block
count of the object it then has. -/
theorem safe_iff_inRange {P : Type*} [DecidableEq P] {pid : P → ℕ} {hash : String → ℕ}
    {es : List (ManagerEvent P)} {s : Managers P}
    (h : exec (Managers.step pid hash) (Managers.init P) es = some s) (p : P) (c : ManagerCall) :
    (∀ a ∈ c.accesses (pid p) hash s.mem (s.pc p), a.Safe) ↔
      c.InRange (pid p) hash s.mem (s.pc p) := by
  have hs := Managers.sane_run h
  have hp := hs.pc p
  cases c with
  | createSegment files order os path => simp [ManagerCall.accesses, ManagerCall.InRange]
  | requestMemory spurious topic memblock =>
    refine iff_of_true (fun a ha => ?_) trivial
    rw [ManagerCall.accesses] at ha
    split at ha
    · cases ha
    · rename_i h hlookup
      exact writeAccesses_safe (hp topic h hlookup) _ _ a ha
  | holdMemory env topic memblock =>
    exact readAccesses_safe_iff env hs.mem (hp.handle (pid p) hash topic)
  | writeFinish topic memblock | releaseMemory topic memblock =>
    simp only [ManagerCall.accesses, ManagerCall.InRange]
    cases hlookup : (s.pc p).segMap.lookup topic with
    | none => simp
    | some h => simpa using releaseAccesses_safe_iff (hp topic h hlookup)

/-! ### A release after a failed hold -/

/-- A process that asks for a topic whose object does not exist. -/
def failedHold : List (ManagerEvent Unit) := [.call () (.holdMemory {} "topic" ⟨8, 0, none⟩)]

/-- The theorem applies to a request for that topic, and to its release with an index that is not
below the default block count. -/
theorem safe_iff_inRange_failedHold :
    ∃ s, exec (Managers.step (fun _ => 1) fun _ => 0) (Managers.init Unit) failedHold = some s ∧
      (∀ a ∈ (ManagerCall.requestMemory [] "topic" ⟨8, 0, none⟩).accesses 1 (fun _ => 0) s.mem
        (s.pc ()), a.Safe) ∧
      ∀ a ∈ (ManagerCall.releaseMemory "topic" ⟨8, 32, none⟩).accesses 1 (fun _ => 0) s.mem
        (s.pc ()), a.Safe := by
  have hrun : ∃ s, exec (Managers.step (fun _ => 1) fun _ => 0) (Managers.init Unit) failedHold =
      some s ∧ (ManagerCall.releaseMemory "topic" ⟨8, 32, none⟩).InRange 1 (fun _ => 0) s.mem
        (s.pc ()) := by
    refine ⟨_, rfl, fun h hsome hlt => ?_⟩
    obtain rfl := some.inj hsome
    exact absurd hlt (by decide)
  obtain ⟨s, hexec, hrange⟩ := hrun
  exact ⟨s, hexec, (safe_iff_inRange hexec () _).mpr trivial,
    (safe_iff_inRange hexec () _).mpr hrange⟩

/-- The hold fails and leaves the topic registered; the release then goes through a null pointer. -/
theorem release_unsafe_after_failedHold :
    ∃ s, exec (Managers.step (fun _ => 1) fun _ => 0) (Managers.init Unit) failedHold = some s ∧
      ∃ a ∈ (ManagerCall.releaseMemory "topic" ⟨8, 0, none⟩).accesses 1 (fun _ => 0) s.mem
        (s.pc ()), ¬a.Safe := by
  decide +kernel

end ShmTest
