import Notebook.Container.NestedMap
import Notebook.ShmTest.AllocMemoryAcquire
import Notebook.ShmTest.AllocMemoryRuns

/-!
# The manager of the segments of a process

`ShmManager` (`shm_src/shm_manager.cpp`) keeps the handles of a process in a map from topics to
segments. `CreateSegment` reads a configuration (`shm_src/shm_config.cpp`) and makes the segments of
its topics, except for the topics that are in the map. `HoldMemory` puts a topic that is not in the
map there, with a handle that is not attached, before it tries to attach it.

The handles of a manager belong to the process `pid`; `hash` is the hash of a topic. A configuration
file is a list of entries, or is null, or cannot be loaded; the maps are iterated in any `order`.

## Main definitions

* `Manager` — the map of the segments, with the calls of a manager.
* `Progress` — what the rounds of `CreateSegmentFromConfig` do.
* `Forgotten` — a `HoldMemory` before `CreateSegment` has had no effect.

## Main results

* `holdMemory_of_missing` — a `HoldMemory` without the object registers a handle without one.
* `hold_never_forgotten` — a failed `HoldMemory` is never forgotten.
-/

open Interleaving Container Function List Option

namespace ShmTest

/-! ### Configuration files -/

/-- The entry `ShareMemory` of a topic. -/
structure ShareMemoryNode where
  blockSize : Option ℕ
  blockCount : Option ℕ

/-- An entry of a configuration file, with the keys that it has. The topic is taken from `c_str()`,
so it is the name up to its first null character. -/
structure ConfigNode where
  topicName : Option String
  shareMemory : Option ShareMemoryNode

/-- `MAX_FILE_LEN` -/
def maxFileLen : ℕ := 255

/-- `MAX_BLOCK_SIZE` -/
def maxBlockSize : ℕ := 32 * 1024 * 1024

/-- `MAX_BLOCK_COUNT` -/
def maxBlockCount : ℕ := 32

/-- One round of `ParseConfig`. The conversion of a number that does not fit its type throws. -/
def parseNode (propMap : Map String ShmQosProp) (node : ConfigNode) :
    Option (Map String ShmQosProp) :=
  match node.topicName, node.shareMemory with
  | some topicName, some shareMemory =>
    match shareMemory.blockSize, shareMemory.blockCount with
    | some blockSize, some blockCount =>
      if blockSize < 2 ^ 64 ∧ blockCount < 2 ^ 32 then
        let prop : ShmQosProp :=
          ⟨topicName, min maxBlockSize blockSize, min maxBlockCount blockCount⟩
        some (if topicName ∈ propMap then propMap else propMap.insert topicName prop)
      else none
    | _, _ => some propMap
  | _, _ => some propMap

/-- `ParseConfig`. The loop counts in a `uint8_t` and does not end with more than `255` entries. -/
def parseConfig (propMap : Map String ShmQosProp) (nodes : List ConfigNode) :
    Option (Map String ShmQosProp) :=
  if 255 < nodes.length then none else nodes.foldlM parseNode propMap

/-- `LoadConfig`, with what `YAML::LoadFile` makes of a path: it throws, or it returns the null
node, or a sequence of entries. -/
def loadConfig (files : String → Option (Option (List ConfigNode))) (path : String)
    (propMap : Map String ShmQosProp) : Option (Bool × Map String ShmQosProp) :=
  if path.utf8ByteSize = 0 ∨ maxFileLen < path.utf8ByteSize then some (false, propMap)
  else
    match files path with
    | none => none
    | some none => some (false, propMap)
    | some (some nodes) => (parseConfig propMap nodes).map fun propMap => (true, propMap)

/-! ### The manager -/

/-- `MemBlock` -/
structure MemBlock where
  size : ℕ
  index : ℤ
  buf : Option BufAddr
deriving DecidableEq, Repr

/-- `m_segMap`, and `m_propMap` of the configuration. -/
structure Manager where
  segMap : Map String Handle
  propMap : Map String ShmQosProp

namespace Manager

section Calls

variable (pid : ℕ) (hash : String → ℕ)

/-- One round of `CreateSegmentFromConfig`. -/
def createTopic (os : String → List Os) (topic : String) (s : Manager) (m : Store) :
    Option (Manager × Store) :=
  if topic ∈ s.segMap then some (s, m)
  else
    match s.propMap.lookup topic with
    | none => some (s, m)
    | some prop =>
      match create (os topic) m (.new pid (hash topic) (.ofProp prop)) with
      | none => none
      | some (false, m, _) => some (s, m)
      | some (true, m, h) => some ({ s with segMap := s.segMap.insert topic h }, m)

/-- The loop of `CreateSegmentFromConfig` over the topics of the configuration. -/
def createTopics (os : String → List Os) : List String → Manager → Store → Option (Manager × Store)
  | [], s, m => some (s, m)
  | topic :: topics, s, m =>
    (createTopic pid hash os topic s m).bind fun r => createTopics os topics r.1 r.2

/-- `CreateSegment` -/
def createSegment (files : String → Option (Option (List ConfigNode)))
    (order : Map String ShmQosProp → List String) (os : String → List Os) (path : String)
    (s : Manager) (m : Store) : Option (Bool × Manager × Store) :=
  match loadConfig files path s.propMap with
  | none => none
  | some (false, propMap) => some (false, { s with propMap }, m)
  | some (true, propMap) =>
    (createTopics pid hash os (order propMap) { s with propMap } m).map fun r =>
      (!r.1.segMap.keys.isEmpty, r.1, r.2)

/-- `RequestMemory` -/
def requestMemory (spurious : List (Bool × Bool)) (topic : String) (memblock : MemBlock)
    (s : Manager) (m : Store) : Option (Bool × MemBlock × Manager × Store) :=
  match s.segMap.lookup topic with
  | none => some (false, memblock, s, m)
  | some h =>
    match acquireBlockToWrite spurious m h memblock.size with
    | none => none
    | some (out, m, h) =>
      let s := { s with segMap := s.segMap.insert topic h }
      match out.ok, out.block with
      | true, some (_, index) =>
        some (true, { memblock with index := int32 index, buf := out.buf }, s, m)
      | _, _ => some (false, memblock, s, m)

/-- The handle that `HoldMemory` uses: a topic that is not registered gets a new one. -/
def handle (topic : String) (s : Manager) : Handle :=
  (s.segMap.lookup topic).getD (.new pid (hash topic) .default)

/-- `HoldMemory` -/
def holdMemory (env : ReadEnv) (topic : String) (memblock : MemBlock) (s : Manager) (m : Store) :
    Option (Bool × MemBlock × Manager × Store) :=
  match acquireBlockToRead env m (handle pid hash topic s) (memblock.index % 2 ^ 32).toNat with
  | none => none
  | some (out, m, h) =>
    let s := { s with segMap := s.segMap.insert topic h }
    if out.ok then some (true, { memblock with buf := out.buf }, s, m)
    else some (false, memblock, s, m)

/-- `WriteFinish` and `ReleaseMemory` -/
def release (releaseBlock : Store → Handle → ℕ → Option (Bool × Store)) (topic : String)
    (memblock : MemBlock) (s : Manager) (m : Store) : Option (Bool × Store) :=
  match s.segMap.lookup topic with
  | none => some (false, m)
  | some h => releaseBlock m h (memblock.index % 2 ^ 32).toNat

/-- `WriteFinish` -/
def writeFinish : String → MemBlock → Manager → Store → Option (Bool × Store) :=
  release releaseWrittenBlock

/-- `ReleaseMemory` -/
def releaseMemory : String → MemBlock → Manager → Store → Option (Bool × Store) :=
  release releaseReadBlock

end Calls

/-! ### Attaching when the name is missing -/

section Missing

variable {m : Store} {h : Handle}

theorem openOnly_of_missing (os : Os) (hinit : h.init = false) (hnamed : m.named h.shmName = none) :
    openOnly os m h = (false, m, h) := by
  rw [openOnly, hinit, hnamed]
  rfl

/-- A read that has to open or to map an object whose name does not exist fails and leaves the
handle unattached. -/
theorem acquireBlockToRead_of_missing (env : ReadEnv) {index : ℕ}
    (hnamed : m.named h.shmName = none)
    (hremap : h.init = true → FindsNeedRemap m h index) :
    acquireBlockToRead env m h index =
      some (.failed, m, if h.init = true then h.reset else h) := by
  cases hinit : h.init with
  | false =>
    rw [acquireBlockToRead, openOnly_of_missing env.openOnly hinit hnamed]
    rfl
  | true =>
    obtain ⟨hindex, seg, hseg, hflag⟩ := hremap hinit
    have hopen : openOnly env.openOnly m h = (true, m, h) := if_pos hinit
    have hfail : remap env.remap m h = (false, m, h.reset) := openOnly_of_missing _ rfl hnamed
    simp [acquireBlockToRead, hopen, hfail, hindex, hseg, hflag]

end Missing

/-! ### Making segments -/

/-- All objects are as they were, and there may be new ones. -/
structure KeepsObjects (m m' : Store) : Prop where
  next_le : m.next ≤ m'.next
  shm : ∀ obj < m.next, m'.shm obj = m.shm obj

theorem KeepsObjects.refl (m : Store) : KeepsObjects m m := ⟨le_rfl, fun _ _ => rfl⟩

theorem KeepsObjects.trans {m m' m'' : Store} (h : KeepsObjects m m') (h' : KeepsObjects m' m'') :
    KeepsObjects m m'' :=
  ⟨h.next_le.trans h'.next_le,
    fun obj hobj => (h'.shm obj (hobj.trans_le h.next_le)).trans (h.shm obj hobj)⟩

theorem keepsObjects_shmCreate (m : Store) (shmName : ℕ) : KeepsObjects m (m.shmCreate shmName) :=
  ⟨Nat.le_succ _, fun _ hobj => update_of_ne hobj.ne ..⟩

/-- The handle has been attached by `Create`, and nobody has used the blocks of its object. -/
structure Ready (pid : ℕ) (prop : ShmQosProp) (m : Store) (h : Handle) : Prop where
  init : h.init = true
  pid : h.pid = pid
  conf : h.conf = (ShmConf.ofProp prop).update (uint32 prop.blockSize) prop.blockCount
  unused : ∃ obj seg, h.obj = some obj ∧ obj < m.next ∧ m.shm obj = some seg ∧ seg.seq = 0 ∧
    seg.blocks = List.replicate prop.blockCount .new

section Create

variable {pid : ℕ} {hash : String → ℕ} {topic : String} {s s' s'' : Manager} {m m' m'' : Store}
  {h : Handle} {prop : ShmQosProp}

theorem Ready.keeps (hready : Ready pid prop m h) (hkeeps : KeepsObjects m m') :
    Ready pid prop m' h := by
  obtain ⟨obj, seg, hobj, hlt, hseg, hunused⟩ := hready.unused
  exact { hready with
    unused := ⟨obj, seg, hobj, hlt.trans_le hkeeps.next_le, (hkeeps.shm obj hlt).trans hseg,
      hunused⟩ }

theorem create_ready {os : List Os}
    (hcall : create os m (.new pid (hash topic) (.ofProp prop)) = some (true, m', h)) :
    KeepsObjects m m' ∧ Ready pid prop m' h := by
  obtain ⟨-, ⟨hinit, -⟩ | ⟨-, hok, -⟩ | ⟨-, -, seg, hcreated⟩⟩ := create_cases hcall
  · cases hinit
  · cases hok
  · obtain rfl := hcreated.store
    have hkeeps := keepsObjects_shmCreate m (hash topic)
    refine ⟨⟨hkeeps.next_le, fun obj hobj => ?_⟩, hcreated.init, hcreated.pid, hcreated.conf,
      m.next, seg, hcreated.obj, Nat.lt_succ_self _, Store.set_shm .., hcreated.seq,
      hcreated.blocks⟩
    rw [← hkeeps.shm obj hobj]
    exact update_of_ne hobj.ne ..

/-- What the rounds of `CreateSegmentFromConfig` do: registered topics keep their handles, and the
topics that are registered with new ones are ready. -/
structure Progress (pid : ℕ) (s : Manager) (m : Store) (s' : Manager) (m' : Store) : Prop where
  propMap : s'.propMap = s.propMap
  keeps : KeepsObjects m m'
  registered : ∀ topic h, s.segMap.lookup topic = some h → s'.segMap.lookup topic = some h
  ready : ∀ topic h prop, s.segMap.lookup topic = none → s'.segMap.lookup topic = some h →
    s.propMap.lookup topic = some prop → Ready pid prop m' h

theorem Progress.refl (s : Manager) (m : Store) : Progress pid s m s m :=
  ⟨rfl, .refl m, fun _ _ h => h, fun topic h prop hnone hsome => by simp [hnone] at hsome⟩

theorem Progress.trans (h₁ : Progress pid s m s' m') (h₂ : Progress pid s' m' s'' m'') :
    Progress pid s m s'' m'' := by
  refine ⟨h₂.propMap.trans h₁.propMap, h₁.keeps.trans h₂.keeps,
    fun topic h hsome => h₂.registered topic h (h₁.registered topic h hsome), ?_⟩
  intro topic h prop hnone hsome hprop
  cases hmid : s'.segMap.lookup topic with
  | none => exact h₂.ready topic h prop hmid hsome (h₁.propMap ▸ hprop)
  | some h' =>
    obtain rfl : h' = h := some.inj ((h₂.registered topic h' hmid).symm.trans hsome)
    exact (h₁.ready topic h' prop hnone hmid hprop).keeps h₂.keeps

theorem keepsObjects_of_createFailed {shmName : ℕ} (hfailed : CreateFailed m shmName m') :
    KeepsObjects m m' := by
  have hcreate := keepsObjects_shmCreate m shmName
  cases hfailed with
  | kept => exact .refl m
  | unlinked => exact ⟨le_rfl, fun _ _ => rfl⟩
  | empty => exact hcreate
  | removed => exact ⟨hcreate.next_le, hcreate.shm⟩

theorem createTopic_progress {os : String → List Os}
    (hcall : createTopic pid hash os topic s m = some (s', m')) : Progress pid s m s' m' := by
  rw [createTopic] at hcall
  split at hcall
  · cases hcall
    exact .refl s m
  rename_i hmem
  split at hcall
  · cases hcall
    exact .refl s m
  rename_i prop hprop
  split at hcall
  · cases hcall
  · rename_i m₁ h₁ hcreate
    cases hcall
    obtain ⟨-, ⟨-, hok, -⟩ | ⟨-, -, -, hfailed⟩ | ⟨-, hok, -⟩⟩ := create_cases hcreate
    · cases hok
    · exact ⟨rfl, keepsObjects_of_createFailed hfailed, fun _ _ h => h,
        fun topic h prop hnone hsome => by simp [hnone] at hsome⟩
    · cases hok
  · rename_i m₁ h₁ hcreate
    cases hcall
    obtain ⟨hkeeps, hready⟩ := create_ready hcreate
    have hnew : s.segMap.lookup topic = none := AList.lookup_eq_none.mpr hmem
    refine ⟨rfl, hkeeps, fun topic' h hsome => ?_, fun topic' h prop' hnone hsome hprop' => ?_⟩
    · refine lookup_insert_eq_some_iff.mpr (.inr ⟨?_, hsome⟩)
      rintro rfl
      rw [hnew] at hsome
      cases hsome
    · rcases lookup_insert_eq_some_iff.mp hsome with ⟨rfl, rfl⟩ | ⟨-, hsome⟩
      · obtain rfl : prop = prop' := some.inj (hprop.symm.trans hprop')
        exact hready
      · rw [hnone] at hsome
        cases hsome

theorem createTopics_progress {os : String → List Os} {topics : List String}
    (hcall : createTopics pid hash os topics s m = some (s', m')) : Progress pid s m s' m' := by
  induction topics generalizing s m with
  | nil =>
    cases hcall
    exact .refl _ _
  | cons topic topics ih =>
    obtain ⟨⟨s₁, m₁⟩, hround, hrest⟩ := bind_eq_some_iff.mp hcall
    exact (createTopic_progress hround).trans (ih hrest)

/-- All system calls of `Create` succeed. -/
def succeed : String → List Os := fun _ => [{}, {}]

variable (pid hash) in
theorem createTopic_succeeds (topic : String) (s : Manager) (m : Store) :
    ∃ s' m', createTopic pid hash succeed topic s m = some (s', m') ∧ Progress pid s m s' m' ∧
      (topic ∈ s.propMap → topic ∈ s'.segMap) := by
  have hcall : ∃ s' m', createTopic pid hash succeed topic s m = some (s', m') ∧
      (topic ∈ s.propMap → topic ∈ s'.segMap) := by
    rw [createTopic]
    split
    · rename_i hmem
      exact ⟨s, m, rfl, fun _ => hmem⟩
    cases hprop : s.propMap.lookup topic with
    | none => exact ⟨s, m, rfl, fun h => absurd h (AList.lookup_eq_none.mp hprop)⟩
    | some prop =>
      obtain ⟨m', h', hcreate⟩ := create_succeeds m (h := .new pid (hash topic) (.ofProp prop)) rfl
      refine ⟨{ s with segMap := s.segMap.insert topic h' }, m', ?_,
        fun _ => (AList.mem_insert _).mpr (.inl rfl)⟩
      simp only [succeed, hcreate]
  obtain ⟨s', m', hcall, hmem⟩ := hcall
  exact ⟨s', m', hcall, createTopic_progress hcall, hmem⟩

variable (pid hash) in
theorem createTopics_succeeds (topics : List String) (s : Manager) (m : Store) :
    ∃ s' m', createTopics pid hash succeed topics s m = some (s', m') ∧ Progress pid s m s' m' ∧
      ∀ topic ∈ topics, topic ∈ s.propMap → topic ∈ s'.segMap := by
  induction topics generalizing s m with
  | nil => exact ⟨s, m, rfl, .refl s m, fun _ h => by cases h⟩
  | cons topic topics ih =>
    obtain ⟨s₁, m₁, hcall₁, hprogress₁, hmem₁⟩ := createTopic_succeeds pid hash topic s m
    obtain ⟨s₂, m₂, hcall₂, hprogress₂, hmem₂⟩ := ih s₁ m₁
    refine ⟨s₂, m₂, ?_, hprogress₁.trans hprogress₂, ?_⟩
    · rw [createTopics, hcall₁]
      exact hcall₂
    · intro topic' htopic' hprop
      rcases mem_cons.mp htopic' with rfl | htopic'
      · obtain ⟨h, hsome⟩ := isSome_iff_exists.mp (AList.lookup_isSome.mpr (hmem₁ hprop))
        exact AList.lookup_isSome.mp (by rw [hprogress₂.registered _ h hsome]; rfl)
      · exact hmem₂ topic' htopic' (hprogress₁.propMap ▸ hprop)

variable (pid hash) in
theorem createSegment_succeeds {files : String → Option (Option (List ConfigNode))}
    {order : Map String ShmQosProp → List String} {path : String} {propMap : Map String ShmQosProp}
    (hload : loadConfig files path s.propMap = some (true, propMap))
    (horder : ∀ propMap, (order propMap).Perm propMap.keys) (htopic : topic ∈ propMap) :
    ∃ s' m', createSegment pid hash files order succeed path s m = some (true, s', m') ∧
      Progress pid { s with propMap } m s' m' ∧ topic ∈ s'.segMap := by
  obtain ⟨s', m', hcall, hprogress, hmem⟩ :=
    createTopics_succeeds pid hash (order propMap) { s with propMap } m
  have htopic' := hmem topic ((horder propMap).mem_iff.mpr htopic) htopic
  refine ⟨s', m', ?_, hprogress, htopic'⟩
  have hkeys : s'.segMap.keys.isEmpty = false :=
    isEmpty_eq_false_iff.mpr (ne_nil_of_mem (AList.mem_keys.mpr htopic'))
  rw [createSegment, hload]
  simp only [hcall, map_some, hkeys, Bool.not_false]

theorem requestMemory_of_not_init (hsome : s.segMap.lookup topic = some h) (hinit : h.init = false)
    (spurious : List (Bool × Bool)) (req : MemBlock) :
    (requestMemory spurious topic req s m).map (fun r => (r.1, r.2.1)) = some (false, req) := by
  have hcall : acquireBlockToWrite spurious m h req.size = some (.failed, m, h) := by
    rw [acquireBlockToWrite, hinit]
    rfl
  rw [requestMemory, hsome]
  simp only [hcall]
  rfl

/-- A request to a new segment gets the first block. -/
theorem Ready.acquireBlockToWrite (hready : Ready pid prop m h) {size : ℕ}
    (hsize : size ≤ ShmConf.getCeilingMessageSize (uint32 prop.blockSize))
    (hcount : 0 < prop.blockCount) (spurious : List (Bool × Bool)) :
    ∃ obj m', acquireBlockToWrite ((false, false) :: spurious) m h size =
      some (⟨true, some (obj, 0), h.blockBufAddrs 0⟩, m', h) := by
  obtain ⟨obj, seg, hobj, -, hseg, hseq, hblocks⟩ := hready.unused
  have hnum : h.conf.blockNum = prop.blockCount := by rw [hready.conf]; rfl
  have hceiling :
      h.conf.ceilingMsgSize = ShmConf.getCeilingMessageSize (uint32 prop.blockSize) := by
    rw [hready.conf]
    rfl
  have hblock : seg.blocks[0]? = some .new := by
    rw [hblocks, getElem?_replicate_of_lt hcount]
  -- the first round locks the block `0`, and the process is recorded in its first slot
  let locked : Block := ⟨writeExclusive, Block.new.pidSet⟩
  let seg₁ : Segment := { seg with seq := uint32 1, blocks := seg.blocks.set 0 locked }
  have hnext : getNextWritableBlockIndex h.pid h.conf.blockNum obj ((false, false) :: spurious) m =
      some (0, m.set obj seg₁) := by
    rw [getNextWritableBlockIndex, hnum, if_neg hcount.ne', hseg]
    simp only [hseq, Nat.zero_mod, hblock]
    rfl
  have hlocked : seg₁.blocks[0]? = some locked := by
    simp [seg₁, hblocks, hcount]
  obtain ⟨slots, hslots⟩ : ∃ slots, LocklessSet.insert h.pid locked.pidSet = some slots :=
    isSome_iff_exists.mp (LocklessSet.insert_isSome_iff.mpr (.inr (by decide)))
  refine ⟨obj, (m.set obj seg₁).setBlock obj seg₁ 0 { locked with pidSet := slots }, ?_⟩
  rw [ShmTest.acquireBlockToWrite, hready.init, hobj, hceiling, if_neg hsize.not_gt]
  simp only [hnext, Store.set_shm, hlocked, recordPid, hslots]
  rfl

theorem Ready.requestMemory (hready : Ready pid prop m h) (hsome : s.segMap.lookup topic = some h)
    {req : MemBlock} (hsize : req.size ≤ ShmConf.getCeilingMessageSize (uint32 prop.blockSize))
    (hcount : 0 < prop.blockCount) (spurious : List (Bool × Bool)) :
    (requestMemory ((false, false) :: spurious) topic req s m).map (fun r => r.1) = some true := by
  obtain ⟨obj, m', hacquire⟩ := hready.acquireBlockToWrite hsize hcount spurious
  rw [Manager.requestMemory, hsome]
  simp only [hacquire]
  rfl

end Create

section Hold

variable {pid : ℕ} {hash : String → ℕ} {topic : String} {s : Manager} {m : Store}
  {prop : ShmQosProp}

/-- The object of the topic does not exist when `HoldMemory` has to open it, or to map it again. -/
def Missing (pid : ℕ) (hash : String → ℕ) (topic : String) (index : ℤ) (s : Manager) (m : Store) :
    Prop :=
  m.named (handle pid hash topic s).shmName = none ∧
    ((handle pid hash topic s).init = true →
      FindsNeedRemap m (handle pid hash topic s) (index % 2 ^ 32).toNat)

/-- The topic is registered with an attached handle. -/
def Attached (s : Manager) (topic : String) : Prop :=
  ∃ h, s.segMap.lookup topic = some h ∧ h.init = true

/-- A `HoldMemory` before `CreateSegment` has had no effect: the segment of the topic is made (`s₁`
and `m₁`), and every request for a block has the result that it has without `HoldMemory` (`s₂` and
`m₂`). -/
def Forgotten (topic : String) (s₁ : Manager) (m₁ : Store) (s₂ : Manager) (m₂ : Store) : Prop :=
  s₁.Attached topic ∧ ∀ spurious req,
    (requestMemory spurious topic req s₁ m₁).map (fun r => (r.1, r.2.1)) =
      (requestMemory spurious topic req s₂ m₂).map (fun r => (r.1, r.2.1))

/-- A `HoldMemory` that does not find the object registers the topic with a handle that is not
attached. -/
theorem holdMemory_of_missing {memblock : MemBlock}
    (hmissing : Missing pid hash topic memblock.index s m) (env : ReadEnv) :
    ∃ h, holdMemory pid hash env topic memblock s m =
        some (false, memblock, { s with segMap := s.segMap.insert topic h }, m) ∧
      h.init = false := by
  have hread := acquireBlockToRead_of_missing env hmissing.1 hmissing.2
  refine ⟨if (handle pid hash topic s).init = true then (handle pid hash topic s).reset
    else handle pid hash topic s, ?_, ?_⟩
  · rw [holdMemory, hread]
    rfl
  · split
    · rfl
    · rename_i hinit
      exact Bool.eq_false_iff.mpr hinit

theorem attached_iff {h : Handle} (hsome : s.segMap.lookup topic = some h) :
    s.Attached topic ↔ h.init = true := by
  simp [Attached, hsome]

/-- **A failed `HoldMemory` is never forgotten.** Let it fail because the object of the topic does
not exist, and let the configuration that is loaded next contain the topic. Then the segment of the
topic is not made, and all requests for its blocks fail; without `HoldMemory` the segment of an
unregistered topic is made, and a request that fits succeeds. -/
theorem hold_never_forgotten {files : String → Option (Option (List ConfigNode))}
    {order : Map String ShmQosProp → List String} {path : String} {propMap : Map String ShmQosProp}
    {memblock : MemBlock} (hload : loadConfig files path s.propMap = some (true, propMap))
    (horder : ∀ propMap, (order propMap).Perm propMap.keys)
    (hprop : propMap.lookup topic = some prop)
    (hmissing : Missing pid hash topic memblock.index s m) (env : ReadEnv) :
    ∃ held s₁ m₁ s₂ m₂,
      holdMemory pid hash env topic memblock s m = some (false, memblock, held, m) ∧
      createSegment pid hash files order succeed path held m = some (true, s₁, m₁) ∧
      createSegment pid hash files order succeed path s m = some (true, s₂, m₂) ∧
      ¬Forgotten topic s₁ m₁ s₂ m₂ ∧ ¬s₁.Attached topic ∧
      (∀ spurious req, (requestMemory spurious topic req s₁ m₁).map (fun r => (r.1, r.2.1)) =
        some (false, req)) ∧
      (s.segMap.lookup topic = none → s₂.Attached topic ∧ ∀ spurious req,
        req.size ≤ ShmConf.getCeilingMessageSize (uint32 prop.blockSize) → 0 < prop.blockCount →
          (requestMemory ((false, false) :: spurious) topic req s₂ m₂).map (fun r => r.1) =
            some true) := by
  have htopic : topic ∈ propMap := AList.lookup_isSome.mp (by rw [hprop]; rfl)
  obtain ⟨h₁, hhold, hinit₁⟩ := holdMemory_of_missing hmissing env
  obtain ⟨s₁, m₁, hcall₁, hprogress₁, -⟩ := createSegment_succeeds pid hash
    (s := { s with segMap := s.segMap.insert topic h₁ }) (m := m) hload horder htopic
  obtain ⟨s₂, m₂, hcall₂, hprogress₂, hmem₂⟩ :=
    createSegment_succeeds pid hash (m := m) hload horder htopic
  -- the topic is registered, so `CreateSegment` leaves its handle as it is
  have hlookup₁ : s₁.segMap.lookup topic = some h₁ :=
    hprogress₁.registered topic h₁ (AList.lookup_insert _)
  have hdetached : ¬s₁.Attached topic := by simp [attached_iff hlookup₁, hinit₁]
  obtain ⟨h₂, hlookup₂⟩ := isSome_iff_exists.mp (AList.lookup_isSome.mpr hmem₂)
  refine ⟨_, s₁, m₁, s₂, m₂, hhold, hcall₁, hcall₂, fun hforgotten => hdetached hforgotten.1,
    hdetached, requestMemory_of_not_init hlookup₁ hinit₁, fun hnone => ?_⟩
  have hready : Ready pid prop m₂ h₂ := hprogress₂.ready topic h₂ prop hnone hlookup₂ hprop
  exact ⟨(attached_iff hlookup₂).mpr hready.init,
    fun spurious req hsize hcount => hready.requestMemory hlookup₂ hsize hcount _⟩

end Hold

/-! ### A topic that is held too early -/

/-- A configuration with one topic of one block. -/
def oneTopic : String → Option (Option (List ConfigNode)) :=
  fun _ => some (some [⟨some "topic", some ⟨some 8, some 1⟩⟩])

/-- A manager without segments and without configuration. -/
def empty : Manager := ⟨∅, ∅⟩

/-- No objects exist. -/
def noObjects : Store := ⟨fun _ => none, 0, fun _ => none, fun _ => false⟩

/-- `HoldMemory` for a topic that does not exist, then `CreateSegment` with the topic: the request
for a block fails. Without `HoldMemory` it succeeds. -/
theorem request_fails_after_hold :
    (do
      let held ← holdMemory 1 (fun _ => 0) {} "topic" ⟨8, 0, none⟩ empty noObjects
      let made ← createSegment 1 (fun _ => 0) oneTopic AList.keys succeed "f" held.2.2.1 held.2.2.2
      let req ← requestMemory [(false, false)] "topic" ⟨8, 0, none⟩ made.2.1 made.2.2
      return (held.1, made.1, req.1)) = some (false, true, false) ∧
    (do
      let made ← createSegment 1 (fun _ => 0) oneTopic AList.keys succeed "f" empty noObjects
      let req ← requestMemory [(false, false)] "topic" ⟨8, 0, none⟩ made.2.1 made.2.2
      return (made.1, req.1)) = some (true, true) := by
  constructor <;> rfl

theorem hold_never_forgotten_empty :
    ∃ held s₁ m₁ s₂ m₂,
      holdMemory 1 (fun _ => 0) {} "topic" ⟨8, 0, none⟩ empty noObjects =
        some (false, ⟨8, 0, none⟩, held, noObjects) ∧
      createSegment 1 (fun _ => 0) oneTopic AList.keys succeed "f" held noObjects =
        some (true, s₁, m₁) ∧
      createSegment 1 (fun _ => 0) oneTopic AList.keys succeed "f" empty noObjects =
        some (true, s₂, m₂) ∧ ¬Forgotten "topic" s₁ m₁ s₂ m₂ ∧ s₂.Attached "topic" := by
  have hmissing : Missing 1 (fun _ => 0) "topic" 0 empty noObjects := ⟨rfl, fun h => by cases h⟩
  have hload : loadConfig oneTopic "f" empty.propMap =
      some (true, AList.insert "topic" ⟨"topic", 8, 1⟩ ∅) := rfl
  obtain ⟨held, s₁, m₁, s₂, m₂, hhold, hcall₁, hcall₂, hnot, -, -, hmade⟩ :=
    hold_never_forgotten hload (fun p => List.Perm.refl p.keys) (AList.lookup_insert _)
      (show Missing _ _ _ (MemBlock.mk 8 0 none).index _ _ from hmissing) {}
  exact ⟨held, s₁, m₁, s₂, m₂, hhold, hcall₁, hcall₂, hnot, (hmade rfl).1⟩

end Manager

end ShmTest
