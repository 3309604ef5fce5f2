import Notebook.ShmTest.ManagerSafety
import Notebook.ShmTest.ShmConfig

/-!
# Requests for the blocks of a configured topic

A manager without segments reads a configuration and makes the segments of its topics. The block
size and the block count of a topic go through the limits of `ParseConfig`, the size classes of
`ShmConf`, the `State` in the object and back into the configuration of the handle, before a request
for a block uses them.

The limits are from above only. A block count of `0` is accepted, and `GetNextWritableBlockIndex`
(`shm_src/alloc_memory_base.cpp`) then divides by zero. `CreateSegmentFromConfig` returns `true` as
soon as one segment has been made, so that a topic can be without one. And a free block can have its
set of process ids full.

## Main definitions

* `Usable` — the request gets a block, and the buffer lies in the object and has room for it.
* `FreeBlocks`, `Room` — all blocks are free, and the block that is found can record the process.

## Main results

* `acquireBlockToWrite_of_free` — the search for a block among free ones.
* `usable_iff` — which topics have a usable segment.
-/

open Interleaving Container List Option

namespace ShmTest

/-! ### Locking a free block -/

/-- The exchange of the first try-lock, and the only one if it does not fail spuriously. -/
theorem Mem.lock_of_free {m : Mem} (self : ℕ) (spurious : Bool × Bool)
    (hfree : m.lockNum = rwLockFree) :
    (m.lock self .write spurious).1 = true ∨
      spurious.1 = true ∧ (m.lock self .write spurious).1 = false ∧
        (m.lock self .write spurious).2.lockNum = rwLockFree := by
  obtain ⟨spurious₁, spurious₂⟩ := spurious
  cases spurious₁ with
  | false => exact .inl (by simp [lock, tryLock, hfree])
  | true =>
    have hzero : (m.anyAlive self).2.lockNum = rwLockFree := by
      rw [anyAlive_lockNum, hfree]
      simp [towardsZero, rwLockFree]
    have hfirst : m.tryLock true .write = none := by simp [tryLock]
    simp only [lock, hfirst]
    split
    · exact .inr ⟨trivial, rfl, hzero⟩
    · split
      · exact .inl rfl
      · exact .inr ⟨trivial, rfl, hzero⟩

/-- All blocks of the object that the handle is attached to are free. -/
def FreeBlocks (m : Store) (h : Handle) : Prop :=
  ∀ seg ∈ m.segment h, ∀ b ∈ seg.blocks, b.lockNum = rwLockFree

/-- The block that the search finds has the process in its set already, or has an empty slot. -/
def Room (spurious : List (Bool × Bool)) (m : Store) (h : Handle) : Prop :=
  ∀ obj index m' b, h.obj = some obj →
    getNextWritableBlockIndex h.pid h.conf.blockNum obj spurious m = some (index, m') →
    m'.blockAt obj index = some b → h.pid ∈ b.pidSet ∨ 0 ∈ b.pidSet

section Search

variable {m : Store} {h : Handle} {obj : ℕ} {seg : Segment} {spurious : List (Bool × Bool)}

/-- Among free blocks the search ends with the first exchange that does not fail spuriously. -/
theorem getNextWritableBlockIndex_of_free (self : ℕ) {blockNum : ℕ} (hpos : 0 < blockNum)
    (hseg : m.shm obj = some seg) (hlength : seg.blocks.length = blockNum)
    (hfree : ∀ b ∈ seg.blocks, b.lockNum = rwLockFree) (hspurious : ∃ x ∈ spurious, x.1 = false) :
    ∃ index m', getNextWritableBlockIndex self blockNum obj spurious m = some (index, m') ∧
      index < blockNum ∧ ∃ b, m'.blockAt obj index = some b := by
  induction spurious generalizing m seg with
  | nil => simp at hspurious
  | cons spurious rest ih =>
    have hlt : seg.seq % blockNum < seg.blocks.length := by
      rw [hlength]
      exact Nat.mod_lt _ hpos
    have hb : seg.blocks[seg.seq % blockNum]? = some seg.blocks[seg.seq % blockNum] :=
      getElem?_eq_getElem hlt
    have hbfree := hfree _ (getElem_mem hlt)
    generalize seg.blocks[seg.seq % blockNum] = b at hb hbfree
    rw [getNextWritableBlockIndex, if_neg hpos.ne', hseg]
    simp only [hb]
    rcases Mem.lock_of_free (m := b.mem m.dead) self spurious hbfree with
      hok | ⟨htrue, hfail, hzero⟩
    · rw [if_pos hok]
      exact ⟨_, _, rfl, hlength ▸ hlt, _, Store.blockAt_setBlock m obj (by exact hb) _⟩
    -- the block stays free, and the search goes on with the next
    · rw [if_neg (by simp [hfail])]
      refine ih (Store.set_shm ..) (by simp [hlength]) ?_ ?_
      · intro b' hb'
        rcases mem_or_eq_of_mem_set hb' with hb' | rfl
        · exact hfree b' hb'
        · exact hzero
      · obtain ⟨x, hx, hfalse⟩ := hspurious
        rcases mem_cons.mp hx with rfl | hx
        · rw [htrue] at hfalse
          cases hfalse
        · exact ⟨x, hx, hfalse⟩

/-- **The search for a block among free ones.** The call returns a block of the object, and it
succeeds exactly when this block can record the process. -/
theorem acquireBlockToWrite_of_free (hm : m.Sane) (hmaps : h.Maps m obj seg)
    (hinit : h.init = true) (hfree : FreeBlocks m h) (hpos : 0 < h.conf.blockNum) {msgSize : ℕ}
    (hsize : msgSize ≤ h.conf.ceilingMsgSize) (hspurious : ∃ x ∈ spurious, x.1 = false) :
    ∃ index < h.conf.blockNum, ∃ ok m',
      acquireBlockToWrite spurious m h msgSize =
        some (⟨ok, some (obj, index),
          some ⟨obj, h.conf.blockNum, h.conf.blockBufSize, index⟩⟩, m', h) ∧
      (ok = true ↔ Room spurious m h) := by
  obtain ⟨index, m₁, hnext, hlt, b, hb⟩ := getNextWritableBlockIndex_of_free h.pid hpos hmaps.shm
    ((hm.length obj seg hmaps.shm).trans hmaps.blockNum) (hfree seg hmaps.segment) hspurious
  obtain ⟨seg₁, hseg₁, hb₁⟩ := bind_eq_some_iff.mp hb
  have hbuf := hmaps.blockBufAddrs index hlt
  have hroom : Room spurious m h ↔ (LocklessSet.insert h.pid b.pidSet).isSome = true := by
    rw [LocklessSet.insert_isSome_iff]
    refine ⟨fun hroom => hroom obj index m₁ b hmaps.obj_eq hnext hb, ?_⟩
    rintro hb' obj' index' m' b' hobj' hnext' hblock'
    obtain rfl : obj = obj' := some.inj (hmaps.obj_eq.symm.trans hobj')
    obtain ⟨rfl, rfl⟩ := Prod.mk.inj (some.inj (hnext.symm.trans hnext'))
    obtain rfl : b = b' := some.inj (hb.symm.trans hblock')
    exact hb'
  refine ⟨index, hlt, (LocklessSet.insert h.pid b.pidSet).isSome,
    (recordPid m₁ h obj index seg₁ b).2, ?_, hroom.symm⟩
  rw [acquireBlockToWrite, hinit, if_neg (by simp), if_neg hsize.not_gt, hmaps.obj_eq]
  simp only [hnext, hseg₁, hb₁]
  rw [recordPid, hbuf]
  cases LocklessSet.insert h.pid b.pidSet <;> rfl

end Search

/-! ### What the configuration leads to -/

/-- `m_managedShmSize`, the size to which `Create` extends the object. -/
def ShmConf.managedShmSize (conf : ShmConf) : ℕ :=
  Cyber.ShmConf.extraSize + Cyber.ShmConf.stateSize +
    (Cyber.ShmConf.blockSize + conf.blockBufSize) * conf.blockNum

/-- Where a buffer begins in its object. -/
def BufAddr.offset (sizeofState sizeofBlock : ℕ) (a : BufAddr) : ℕ :=
  sizeofState + a.blockNum * sizeofBlock + a.index * a.blockBufSize

/-- The buffer lies in an object of this size, for all sizes of `State` and `Block` within the
sizes that `ShmConf` has reserved for them. -/
def BufAddr.InObject (a : BufAddr) (size : ℕ) : Prop :=
  ∀ sizeofState ≤ Cyber.ShmConf.stateSize, ∀ sizeofBlock ≤ Cyber.ShmConf.blockSize,
    a.offset sizeofState sizeofBlock + a.blockBufSize ≤ size

theorem BufAddr.inObject {conf : ShmConf} {obj index : ℕ} (hindex : index < conf.blockNum) :
    BufAddr.InObject ⟨obj, conf.blockNum, conf.blockBufSize, index⟩ conf.managedShmSize := by
  intro sizeofState hstate sizeofBlock hblock
  have hblocks : conf.blockNum * sizeofBlock ≤ conf.blockNum * Cyber.ShmConf.blockSize := by
    gcongr
  have hbufs : (index + 1) * conf.blockBufSize ≤ conf.blockNum * conf.blockBufSize := by
    gcongr
    exact hindex
  calc sizeofState + conf.blockNum * sizeofBlock + index * conf.blockBufSize + conf.blockBufSize
      = sizeofState + conf.blockNum * sizeofBlock + (index + 1) * conf.blockBufSize := by
        rw [add_mul, one_mul, ← add_assoc]
    _ ≤ Cyber.ShmConf.stateSize + conf.blockNum * Cyber.ShmConf.blockSize +
        conf.blockNum * conf.blockBufSize := by gcongr
    _ = Cyber.ShmConf.stateSize +
        (Cyber.ShmConf.blockSize + conf.blockBufSize) * conf.blockNum := by
        rw [add_assoc, ← mul_add, mul_comm]
    _ ≤ conf.managedShmSize := by
        rw [ShmConf.managedShmSize, add_assoc Cyber.ShmConf.extraSize]
        exact Nat.le_add_left ..

namespace Manager

/-- The request gets a block: the index is below the block count, and the buffer is that of this
block, lies in the object and has room for the request and the message info. -/
def Usable (spurious : List (Bool × Bool)) (topic : String) (req : MemBlock) (prop : ShmQosProp)
    (s : Manager) (m : Store) : Prop :=
  ∃ (index : ℕ) (buf : BufAddr) (s' : Manager) (m' : Store),
    requestMemory spurious topic req s m =
      some (true, { req with index := index, buf := some buf }, s', m') ∧
    index < prop.blockCount ∧ buf.index = index ∧
    req.size + Cyber.ShmConf.messageInfoSize ≤ buf.blockBufSize ∧
    buf.InObject (ShmConf.ofProp prop).managedShmSize

section Usable

variable {pid : ℕ} {hash : String → ℕ} {files : String → Option (Option (List ConfigNode))}
  {order : Map String ShmQosProp → List String} {os : String → List Os} {path topic : String}
  {prop : ShmQosProp} {s : Manager} {m m' : Store} {h : Handle}

theorem prop_le {nodes : List ConfigNode}
    (hprop : nodes.findSome? (ConfigNode.prop topic) = some prop) :
    prop.blockSize ≤ maxBlockSize ∧ prop.blockCount ≤ maxBlockCount := by
  obtain ⟨node, -, hnode⟩ := exists_of_findSome?_eq_some hprop
  obtain ⟨e, -, he⟩ := bind_eq_some_iff.mp hnode
  split_ifs at he
  obtain rfl := some.inj he
  exact ⟨min_le_left .., min_le_left ..⟩

/-- The first `CreateSegment` of a process: what it stores is within the limits, and the handles it
registers are ready and agree with their objects. -/
theorem createSegment_empty (hm : m.Sane)
    (hcall : empty.createSegment pid hash files order os path m = some (true, s, m'))
    (hprop : s.propMap.lookup topic = some prop) :
    (prop.blockSize ≤ maxBlockSize ∧ prop.blockCount ≤ maxBlockCount) ∧ s.Sane m' ∧
      ∀ h, s.segMap.lookup topic = some h → Ready pid prop m' h := by
  obtain ⟨-, hsane⟩ := createSegment_sane hm (fun _ _ h => by cases h) hcall
  rw [createSegment] at hcall
  split at hcall
  · cases hcall
  · cases hcall
  rename_i propMap hload
  obtain ⟨⟨s₁, m₁⟩, htopics, hres⟩ := map_eq_some_iff.mp hcall
  obtain ⟨-, rfl, rfl⟩ : _ ∧ s₁ = s ∧ m₁ = m' := by simpa using hres
  have hprogress := createTopics_progress htopics
  rw [hprogress.propMap] at hprop
  refine ⟨?_, hsane, fun h hsome => hprogress.ready topic h prop rfl hsome hprop⟩
  -- the only way to load a configuration is through `ParseConfig`
  rw [loadConfig] at hload
  split at hload
  · cases hload
  split at hload
  · cases hload
  · cases hload
  rename_i nodes hfile
  obtain ⟨propMap', hparse, hmap⟩ := map_eq_some_iff.mp hload
  obtain rfl : propMap' = propMap := by simpa using hmap
  rw [parseConfig] at hparse
  split_ifs at hparse
  rw [lookup_of_foldlM hparse] at hprop
  exact prop_le (by simpa [empty] using hprop)

/-- The configuration of a handle that is ready is the one of its topic, which has room for a
request of the block size. -/
theorem Ready.conf_eq (hready : Ready pid prop m h) (hsize : prop.blockSize ≤ maxBlockSize) :
    h.conf = .ofProp prop ∧ prop.blockSize ≤ h.conf.ceilingMsgSize := by
  have hlt : prop.blockSize < 2 ^ 32 := lt_of_le_of_lt hsize (by decide)
  have hconf : h.conf = .ofProp prop := by
    rw [hready.conf, uint32_eq_self hlt]
    rfl
  refine ⟨hconf, ?_⟩
  rw [hconf]
  rcases Cyber.ShmConf.getCeilingMessageSize_spec prop.blockSize with hle | ⟨hlarge, -⟩
  · exact hle
  · exact absurd hsize hlarge.not_ge

theorem Ready.freeBlocks (hready : Ready pid prop m h) : FreeBlocks m h := by
  obtain ⟨obj, seg, hobj, -, hseg, -, hblocks⟩ := hready.unused
  intro seg' hseg' b hb
  rw [Store.segment, hobj, bind_some, hseg] at hseg'
  obtain rfl := some.inj hseg'
  rw [hblocks] at hb
  rw [eq_of_mem_replicate hb]
  rfl

theorem Ready.room (hready : Ready pid prop m h) (hm : m.Sane) (hh : h.Sane m)
    (hsize : prop.blockSize ≤ maxBlockSize) (hcount : 0 < prop.blockCount) :
    Room [(false, false)] m h := by
  obtain ⟨hconf, -⟩ := hready.conf_eq hsize
  have hnum : h.conf.blockNum = prop.blockCount := by rw [hconf]; rfl
  obtain ⟨obj, seg, hmaps⟩ := hh.maps hready.init
  have hspurious : ∃ x ∈ [(false, false)], x.1 = false := ⟨_, mem_singleton_self _, rfl⟩
  obtain ⟨index, -, ok, m', hacquire, hok⟩ := acquireBlockToWrite_of_free hm hmaps hready.init
    hready.freeBlocks (hnum ▸ hcount) (Nat.zero_le _) hspurious
  obtain ⟨obj', m'', hacquire'⟩ := hready.acquireBlockToWrite (Nat.zero_le _) hcount []
  rw [hacquire] at hacquire'
  exact hok.mp (by simpa using congrArg (fun r => r.map fun r => r.1.ok) hacquire')

variable {spurious : List (Bool × Bool)} {req : MemBlock}

theorem requestMemory_of_noBlocks {obj : ℕ}
    (hlookup : s.segMap.lookup topic = some h) (hinit : h.init = true) (hobj : h.obj = some obj)
    (hsize : req.size ≤ h.conf.ceilingMsgSize) (hnum : h.conf.blockNum = 0) :
    requestMemory spurious topic req s m = none := by
  have hnext : getNextWritableBlockIndex h.pid h.conf.blockNum obj spurious m = none := by
    rw [hnum]
    cases spurious <;> rfl
  have hnone : acquireBlockToWrite spurious m h req.size = none := by
    rw [acquireBlockToWrite, hinit, if_neg (by simp), if_neg hsize.not_gt, hobj]
    simp only [hnext]
  rw [requestMemory, hlookup]
  simp only [hnone]

/-- Among free blocks a request succeeds exactly when the block that is found can record the
process. -/
theorem usable_iff_room {obj : ℕ} {seg : Segment} (hm : m.Sane) (hmaps : h.Maps m obj seg)
    (hinit : h.init = true) (hconf : h.conf = .ofProp prop)
    (hlookup : s.segMap.lookup topic = some h) (hfree : FreeBlocks m h)
    (hpos : 0 < prop.blockCount) (hcount : prop.blockCount ≤ maxBlockCount)
    (hsize : req.size ≤ h.conf.ceilingMsgSize) (hspurious : ∃ x ∈ spurious, x.1 = false) :
    Usable spurious topic req prop s m ↔ Room spurious m h := by
  have hnum : h.conf.blockNum = prop.blockCount := by rw [hconf]; rfl
  obtain ⟨index, hlt, ok, m₁, hacquire, hok⟩ := acquireBlockToWrite_of_free hm hmaps hinit hfree
    (hnum ▸ hpos) hsize hspurious
  have hindex : index < prop.blockCount := hnum ▸ hlt
  rw [← hok]
  constructor
  · rintro ⟨index', buf, s', m₂, hreq, -⟩
    rw [requestMemory, hlookup] at hreq
    simp only [hacquire] at hreq
    cases ok with
    | false => cases hreq
    | true => rfl
  · rintro rfl
    have hint : int32 index = index := by
      have hmax : maxBlockCount = 32 := rfl
      exact int32_eq_self (by omega) (by omega)
    refine ⟨index, ⟨obj, h.conf.blockNum, h.conf.blockBufSize, index⟩,
      { s with segMap := s.segMap.insert topic h }, m₁, ?_, hindex, rfl, ?_,
      hconf ▸ BufAddr.inObject hlt⟩
    · rw [requestMemory, hlookup]
      simp only [hacquire, hint]
    · rw [hconf] at hsize ⊢
      exact Nat.add_le_add_right hsize _

/-- **Which topics have a usable segment.** The first `CreateSegment` of a process succeeds, and a
configuration has been stored for the topic. Later all blocks of the topic are free, and the process
requests a block of at most the configured size; the exchange does not fail spuriously for ever. The
request gets a block with a buffer of the size it needs exactly when the block count is not `0`, the
segment of the topic has been made, and the block that is found can record the process. -/
theorem usable_iff (hm : m.Sane)
    (hcall : empty.createSegment pid hash files order os path m = some (true, s, m'))
    (hprop : s.propMap.lookup topic = some prop) {later : Store} (hlater : m'.Evolves later)
    (hfree : ∀ h ∈ s.segMap.lookup topic, FreeBlocks later h) (hsize : req.size ≤ prop.blockSize)
    (hspurious : ∃ x ∈ spurious, x.1 = false) :
    Usable spurious topic req prop s later ↔
      0 < prop.blockCount ∧ ∃ h, s.segMap.lookup topic = some h ∧ Room spurious later h := by
  obtain ⟨⟨hblockSize, hblockCount⟩, hsane, hready⟩ := createSegment_empty hm hcall hprop
  cases hlookup : s.segMap.lookup topic with
  | none =>
    refine iff_of_false ?_ (by simp)
    rintro ⟨index, buf, s', m₁, hreq, -⟩
    rw [requestMemory, hlookup] at hreq
    cases hreq
  | some h =>
    have hready := hready h hlookup
    obtain ⟨hconf, hceiling⟩ := hready.conf_eq hblockSize
    have hfits : req.size ≤ h.conf.ceilingMsgSize := hsize.trans hceiling
    obtain ⟨obj, seg, hmaps⟩ := ((hsane topic h hlookup).evolves hlater).maps hready.init
    rcases eq_zero_or_pos prop.blockCount with hzero | hpos
    · have hnum : h.conf.blockNum = 0 := by rw [hconf]; exact hzero
      refine iff_of_false ?_ (by simp [hzero])
      rintro ⟨index, buf, s', m₁, hreq, -⟩
      rw [requestMemory_of_noBlocks hlookup hready.init hmaps.obj_eq hfits hnum] at hreq
      cases hreq
    · rw [usable_iff_room hlater.sane hmaps hready.init hconf hlookup (hfree h hlookup) hpos
        hblockCount hfits hspurious]
      simp [hpos]

end Usable

/-! ### A configuration without blocks -/

/-- A configuration with one topic of so many blocks of `8` bytes. -/
def oneTopicOf (blockCount : ℕ) : String → Option (Option (List ConfigNode)) :=
  fun _ => some (some [⟨some "topic", some ⟨some 8, some blockCount⟩⟩])

/-- What `ParseConfig` stores for that configuration. -/
def propOf (blockCount : ℕ) : ShmQosProp :=
  ⟨"topic", min maxBlockSize 8, min maxBlockCount blockCount⟩

theorem sane_noObjects : noObjects.Sane := ⟨fun _ _ h => (by cases h), fun _ _ h => (by cases h)⟩

theorem createSegment_oneTopicOf {blockCount : ℕ}
    (hload : loadConfig (oneTopicOf blockCount) "f" empty.propMap =
      some (true, AList.insert "topic" (propOf blockCount) ∅)) :
    ∃ s m h, empty.createSegment 1 (fun _ => 0) (oneTopicOf blockCount) AList.keys succeed "f"
        noObjects = some (true, s, m) ∧
      s.propMap.lookup "topic" = some (propOf blockCount) ∧ s.segMap.lookup "topic" = some h ∧
      Ready 1 (propOf blockCount) m h := by
  have hprop : (AList.insert "topic" (propOf blockCount) ∅ : Map String ShmQosProp).lookup "topic" =
      some (propOf blockCount) := AList.lookup_insert _
  obtain ⟨s, m, hcall, hprogress, hmem⟩ := createSegment_succeeds 1 (fun _ => 0) (s := empty)
    (m := noObjects) hload (fun p => List.Perm.refl p.keys)
    (AList.lookup_isSome.mp (by rw [hprop]; rfl))
  obtain ⟨h, hlookup⟩ := isSome_iff_exists.mp (AList.lookup_isSome.mpr hmem)
  exact ⟨s, m, h, hcall, hprogress.propMap ▸ hprop, hlookup,
    hprogress.ready "topic" h _ rfl hlookup hprop⟩

/-- The theorem applies to the configuration with one block. -/
theorem usable_iff_oneTopic :
    ∃ s m, empty.createSegment 1 (fun _ => 0) (oneTopicOf 1) AList.keys succeed "f" noObjects =
        some (true, s, m) ∧ Usable [(false, false)] "topic" ⟨8, 0, none⟩ (propOf 1) s m := by
  have hload : loadConfig (oneTopicOf 1) "f" empty.propMap =
      some (true, AList.insert "topic" (propOf 1) ∅) := rfl
  obtain ⟨s, m, h, hcall, hprop, hlookup, hready⟩ := createSegment_oneTopicOf hload
  obtain ⟨hevolves, hsane⟩ := createSegment_sane sane_noObjects (fun _ _ h => by cases h) hcall
  refine ⟨s, m, hcall, (usable_iff sane_noObjects hcall hprop (.refl hevolves.sane) ?_ (by decide)
    ⟨(false, false), by simp, rfl⟩).mpr ⟨by decide, h, hlookup, ?_⟩⟩
  · intro h' hlookup'
    obtain rfl := some.inj (hlookup.symm.trans hlookup')
    exact hready.freeBlocks
  · exact hready.room hevolves.sane (hsane _ h hlookup) (by decide) (by decide)

/-- A configuration with `0` blocks is accepted, and its segment is made; the request for a block
divides by zero. -/
theorem divides_by_zero :
    ∃ s m h, empty.createSegment 1 (fun _ => 0) (oneTopicOf 0) AList.keys succeed "f" noObjects =
        some (true, s, m) ∧
      s.propMap.lookup "topic" = some ⟨"topic", 8, 0⟩ ∧ s.segMap.lookup "topic" = some h ∧
      FreeBlocks m h ∧ h.conf.blockNum = 0 ∧
      ∀ spurious, requestMemory spurious "topic" ⟨8, 0, none⟩ s m = none := by
  have hload : loadConfig (oneTopicOf 0) "f" empty.propMap =
      some (true, AList.insert "topic" (propOf 0) ∅) := rfl
  obtain ⟨s, m, h, hcall, hprop, hlookup, hready⟩ := createSegment_oneTopicOf hload
  obtain ⟨hconf, hceiling⟩ := hready.conf_eq (by decide)
  obtain ⟨obj, -, hobj, -⟩ := hready.unused
  have hnum : h.conf.blockNum = 0 := by rw [hconf]; rfl
  exact ⟨s, m, h, hcall, hprop, hlookup, hready.freeBlocks, hnum, fun spurious =>
    requestMemory_of_noBlocks hlookup hready.init hobj hceiling hnum⟩

end Manager

end ShmTest
