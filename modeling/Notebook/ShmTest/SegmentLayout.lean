import Notebook.ShmTest.RequestUsable

/-!
# The layout of a segment, as its creator and its readers see it

`Create` (`shm_src/alloc_memory.cpp`) extends the new object to the managed size of its
configuration and maps that many bytes. It stores the configured message size and the block count in
the `State`, and derives its configuration from them once more; `OpenOnly` maps the whole object and
derives the configuration from the same `State`. `Reset` unmaps as many bytes as the configuration
says. When the name is taken, `Create` calls `Recreate` (`shm_src/alloc_memory_base.cpp`), which
derives the configuration from its own values before it calls `Create` again.

All of this agrees when the message size of the creator fits a `uint32_t`, as `MsgSize()` returns
one; `ParseConfig` (`shm_src/shm_config.cpp`) accepts `32` MiB at most.

## Main definitions

* `SizedStore` — the objects with their sizes.
* `parts` — where the `State`, the blocks and the buffers lie in an object.
* `SizedStore.Fits` — the handles have the configurations of their objects.

## Main results

* `pairwise_parts`, `parts_le` — the parts are disjoint and lie in the object.
* `run_fits` — every call keeps the agreement.
* `layout_agrees` — creator and readers agree.
-/

open Interleaving Function List Option Threads

namespace ShmTest

/-! ### Sizes -/

/-- The objects, with the `st_size` of each. -/
structure SizedStore where
  store : Store
  size : ℕ → ℕ

/-- The length that `Create` calls `ftruncate` and `mmap` with, if it comes to that. -/
def createLength : List Os → Store → Handle → Option ℕ
  | [], _, _ => none
  | os :: rest, m, h =>
    if h.init then none
    else
      match m.named h.shmName with
      | none => if os.shmOpen && os.ftruncate then some h.conf.managedShmSize else none
      | some _ =>
        if os.shmOpen then
          let h := h.reset
          let m := if os.unlink then m.unlink h.shmName else m
          createLength rest m
            { h with conf := h.conf.update h.conf.getMsgSize h.conf.blockNum }
        else none

/-- The length that `OpenOnly` calls `mmap` with: the size of the object under the name. -/
def openOnlyLength (m : SizedStore) (h : Handle) : Option ℕ :=
  (m.store.named h.shmName).map m.size

/-- The length that `Reset` calls `munmap` with. -/
def Handle.resetLength (h : Handle) : Option ℕ := h.obj.map fun _ => h.conf.managedShmSize

/-- The sizes after a call. Only `Create` extends an object, and only the one it makes. -/
def Call.sizes (m : SizedStore) (h : Handle) : Call → ℕ → ℕ
  | create os =>
    match createLength os m.store h with
    | some length => update m.size m.store.next length
    | none => m.size
  | _ => m.size

/-- What a call makes of the objects and of the handle, if it returns. -/
def Call.runSized (m : SizedStore) (h : Handle) (c : Call) : Option (SizedStore × Handle) :=
  (c.run m.store h).map fun r => (⟨r.1, c.sizes m h⟩, r.2)

/-- No object exists, and the handles are new. -/
def SizedStore.init {T : Type*} (name pid : T → ℕ) (conf : T → ShmConf) (dead : ℕ → Bool) :
    Threads SizedStore T Handle :=
  ⟨⟨⟨fun _ => none, 0, fun _ => none, dead⟩, fun _ => 0⟩, fun t => .new (pid t) (name t) (conf t)⟩

/-! ### Parts -/

variable {prop : ShmQosProp}

namespace ShmConf

/-- The offset and the length of the `State`, of every block and of every buffer. -/
def parts (conf : ShmConf) (obj sizeofState sizeofBlock : ℕ) : List (ℕ × ℕ) :=
  (0, sizeofState) ::
    ((List.range conf.blockNum).map (fun i => (sizeofState + i * sizeofBlock, sizeofBlock)) ++
      (List.range conf.blockNum).map fun i =>
        (BufAddr.offset sizeofState sizeofBlock ⟨obj, conf.blockNum, conf.blockBufSize, i⟩,
          conf.blockBufSize))

variable {conf : ShmConf} {obj sizeofState sizeofBlock : ℕ}

theorem pairwise_consecutive (start length n : ℕ) :
    ((List.range n).map fun i => (start + i * length, length)).Pairwise
      fun a b => a.1 + a.2 ≤ b.1 := by
  rw [pairwise_map]
  refine pairwise_lt_range.imp fun {i j} hij => ?_
  have hle : (i + 1) * length ≤ j * length := Nat.mul_le_mul_right length hij
  rw [add_mul, one_mul] at hle
  omega

theorem end_le_of_mem {start length n : ℕ} {p : ℕ × ℕ}
    (hp : p ∈ (List.range n).map fun i => (start + i * length, length)) :
    start ≤ p.1 ∧ p.1 + p.2 ≤ start + n * length := by
  obtain ⟨i, hi, rfl⟩ := mem_map.mp hp
  have hle : (i + 1) * length ≤ n * length := Nat.mul_le_mul_right length (mem_range.mp hi)
  rw [add_mul, one_mul] at hle
  exact ⟨Nat.le_add_right .., by omega⟩

/-- **The parts are disjoint**: each begins where the one before it has ended, or later. -/
theorem pairwise_parts :
    (conf.parts obj sizeofState sizeofBlock).Pairwise fun a b => a.1 + a.2 ≤ b.1 := by
  rw [parts, pairwise_cons, pairwise_append]
  refine ⟨fun p hp => ?_, pairwise_consecutive .., pairwise_consecutive
    (sizeofState + conf.blockNum * sizeofBlock) .., fun a ha b hb => ?_⟩
  · rw [zero_add]
    rcases mem_append.mp hp with hp | hp
    · exact (end_le_of_mem hp).1
    · have hbufs : sizeofState + conf.blockNum * sizeofBlock ≤ p.1 := (end_le_of_mem hp).1
      exact (Nat.le_add_right ..).trans hbufs
  · exact (end_le_of_mem ha).2.trans (end_le_of_mem hb).1

/-- **The parts are in the object**, which has room for more than them. -/
theorem parts_le (hstate : sizeofState ≤ Cyber.ShmConf.stateSize)
    (hblock : sizeofBlock ≤ Cyber.ShmConf.blockSize) {p : ℕ × ℕ}
    (hp : p ∈ conf.parts obj sizeofState sizeofBlock) : p.1 + p.2 ≤ conf.managedShmSize := by
  have hblocks : conf.blockNum * sizeofBlock ≤ conf.blockNum * Cyber.ShmConf.blockSize :=
    Nat.mul_le_mul_left _ hblock
  have hroom : sizeofState + conf.blockNum * sizeofBlock ≤ conf.managedShmSize := by
    rw [managedShmSize, add_mul, mul_comm Cyber.ShmConf.blockSize]
    omega
  rcases mem_cons.mp hp with rfl | hp
  · omega
  rcases mem_append.mp hp with hp | hp
  · exact (end_le_of_mem hp).2.trans hroom
  · obtain ⟨i, hi, rfl⟩ := mem_map.mp hp
    exact BufAddr.inObject (mem_range.mp hi) sizeofState hstate sizeofBlock hblock

/-- What `Update` sets, with `m_managedShmSize`. -/
def layout (conf : ShmConf) : ℕ × ℕ × ℕ × ℕ :=
  (conf.ceilingMsgSize, conf.blockBufSize, conf.blockNum, conf.managedShmSize)

/-- A configuration that its own message size and block count lead to again. -/
def Coherent (conf : ShmConf) : Prop := conf.update conf.getMsgSize conf.blockNum = conf

theorem coherent_ofProp (hsize : prop.blockSize < 2 ^ 32) : (ofProp prop).Coherent := by
  have hmsg : (ofProp prop).getMsgSize = prop.blockSize := uint32_eq_self hsize
  rw [Coherent, hmsg]
  rfl

/-- With a block count that fits a `uint32_t`, the managed size fits a `uint64_t`. -/
theorem managedShmSize_lt (hcount : prop.blockCount < 2 ^ 32) :
    (ofProp prop).managedShmSize < 2 ^ 64 := by
  have hbuf : (ofProp prop).blockBufSize ≤
      Cyber.ShmConf.messageSizeMore + Cyber.ShmConf.messageInfoSize :=
    Nat.add_le_add_right (Cyber.ShmConf.getCeilingMessageSize_le _) _
  have hmul : (Cyber.ShmConf.blockSize + (ofProp prop).blockBufSize) * prop.blockCount ≤
      (Cyber.ShmConf.blockSize +
        (Cyber.ShmConf.messageSizeMore + Cyber.ShmConf.messageInfoSize)) * 2 ^ 32 :=
    Nat.mul_le_mul (Nat.add_le_add_left hbuf _) hcount.le
  calc (ofProp prop).managedShmSize
      ≤ Cyber.ShmConf.extraSize + Cyber.ShmConf.stateSize +
          (Cyber.ShmConf.blockSize +
            (Cyber.ShmConf.messageSizeMore + Cyber.ShmConf.messageInfoSize)) * 2 ^ 32 :=
        Nat.add_le_add_left hmul _
    _ < 2 ^ 64 := by decide

end ShmConf

/-! ### What the calls keep -/

/-- The two values of the `State` that a configuration is derived from. -/
def Segment.layout (seg : Segment) : ℕ × ℕ := (seg.ceilingMsgSize, seg.blockNum)

/-- Only objects that have been created have contents. -/
def Store.Fresh (m : Store) : Prop := ∀ obj seg, m.shm obj = some seg → obj < m.next

/-- From the first store to the second, no object has lost its contents or the layout in its
`State`. -/
structure Store.KeepsLayout (m m' : Store) : Prop where
  fresh : m'.Fresh
  next_le : m.next ≤ m'.next
  keeps : ∀ obj seg, m.shm obj = some seg → ∃ seg', m'.shm obj = some seg' ∧
    seg'.layout = seg.layout

/-- The handle has the configuration that the `State` of its object leads to, and the addresses of
the buffers that this configuration leads to. -/
def Handle.Fits (h : Handle) (m : Store) : Prop :=
  ∀ obj, h.obj = some obj → ∃ seg, m.shm obj = some seg ∧
    h.conf = h.conf.update seg.ceilingMsgSize seg.blockNum ∧
    ∀ i < h.conf.blockNum,
      h.blockBufAddrs i = some ⟨obj, h.conf.blockNum, h.conf.blockBufSize, i⟩

section Stores

variable {m m' m'' : Store} {h h' : Handle} {obj : ℕ} {seg seg' : Segment}

theorem Store.KeepsLayout.refl (hm : m.Fresh) : m.KeepsLayout m :=
  ⟨hm, le_rfl, fun _ seg hseg => ⟨seg, hseg, rfl⟩⟩

theorem Store.KeepsLayout.trans (h : m.KeepsLayout m') (h' : m'.KeepsLayout m'') :
    m.KeepsLayout m'' := by
  refine ⟨h'.fresh, h.next_le.trans h'.next_le, fun obj seg hseg => ?_⟩
  obtain ⟨seg₁, hseg₁, heq₁⟩ := h.keeps obj seg hseg
  obtain ⟨seg₂, hseg₂, heq₂⟩ := h'.keeps obj seg₁ hseg₁
  exact ⟨seg₂, hseg₂, heq₂.trans heq₁⟩

theorem Handle.Fits.keeps (hfits : h.Fits m) (hm : m.KeepsLayout m') : h.Fits m' := by
  intro obj hobj
  obtain ⟨seg, hseg, hconf, hbufs⟩ := hfits obj hobj
  obtain ⟨seg', hseg', heq⟩ := hm.keeps obj seg hseg
  obtain ⟨hceiling, hnum⟩ := Prod.mk.inj heq
  exact ⟨seg', hseg', by rw [hceiling, hnum]; exact hconf, hbufs⟩

theorem Handle.fits_of_none (hobj : h.obj = none) : h.Fits m := by
  intro obj hsome
  rw [hobj] at hsome
  cases hsome

theorem Store.Fresh.set (hm : m.Fresh) (hobj : obj < m.next)
    (hseg : ∀ seg₀, m.shm obj = some seg₀ → seg.layout = seg₀.layout) :
    m.KeepsLayout (m.set obj seg) := by
  refine ⟨fun o seg' hseg' => ?_, le_rfl, fun o seg₀ hseg₀ => ?_⟩
  all_goals by_cases ho : o = obj
  · exact ho ▸ hobj
  · exact hm o seg' (by simpa [Store.set, ho] using hseg')
  · subst ho
    exact ⟨seg, Store.set_shm .., hseg seg₀ hseg₀⟩
  · exact ⟨seg₀, by simpa [Store.set, ho] using hseg₀, rfl⟩

theorem Store.Fresh.set_of_layout (hm : m.Fresh) (hseg : m.shm obj = some seg)
    (heq : seg'.layout = seg.layout) : m.KeepsLayout (m.set obj seg') :=
  hm.set (hm obj seg hseg) fun seg₀ hseg₀ => by rw [heq, some.inj (hseg.symm.trans hseg₀)]

theorem Store.Fresh.unlink (hm : m.Fresh) (shmName : ℕ) : m.KeepsLayout (m.unlink shmName) :=
  ⟨hm, le_rfl, fun _ seg hseg => ⟨seg, hseg, rfl⟩⟩

theorem Store.Fresh.shmCreate (hm : m.Fresh) (shmName : ℕ) :
    m.KeepsLayout (m.shmCreate shmName) := by
  refine ⟨fun obj seg hseg => ?_, Nat.le_succ _, fun obj seg hseg => ⟨seg, ?_, rfl⟩⟩
  · by_cases hobj : obj = m.next
    · exact hobj ▸ Nat.lt_succ_self _
    · exact (hm obj seg (by simpa [Store.shmCreate, hobj] using hseg)).trans (Nat.lt_succ_self _)
  · exact (update_of_ne (hm obj seg hseg).ne ..).trans hseg

theorem SameHeaders.keepsLayout (hm : m.Fresh) (hsame : SameHeaders m m') : m.KeepsLayout m' := by
  have hlayout (obj : ℕ) : (m'.shm obj).map Segment.layout = (m.shm obj).map Segment.layout := by
    have hheader := congrArg
      (Option.map fun x : Bool × ℕ × ℕ × ℕ × ℕ => (x.2.2.1, x.2.2.2.1)) (hsame.header obj)
    rwa [Option.map_map, Option.map_map] at hheader
  refine ⟨fun obj seg hseg => ?_, hsame.next.ge, fun obj seg hseg => ?_⟩
  · have heq := hlayout obj
    rw [hseg, map_some] at heq
    obtain ⟨seg₀, hseg₀, -⟩ := map_eq_some_iff.mp heq.symm
    exact hsame.next ▸ hm obj seg₀ hseg₀
  · have heq := hlayout obj
    rw [hseg, map_some] at heq
    exact map_eq_some_iff.mp heq

end Stores

variable {os : List Os}

section Calls

variable {m m' : Store} {h h' : Handle}

theorem attach_fits (hm : m.Fresh) (h : Handle) {obj : ℕ} {seg : Segment} (hobj : obj < m.next)
    (hseg : ∀ seg₀, m.shm obj = some seg₀ → seg.layout = seg₀.layout) :
    m.KeepsLayout (attach m h obj seg).1 ∧ (attach m h obj seg).2.Fits (attach m h obj seg).1 := by
  refine ⟨hm.set hobj hseg, fun obj' hobj' => ?_⟩
  obtain rfl : obj = obj' := some.inj hobj'
  exact ⟨seg.increaseReferenceCounts, Store.set_shm .., rfl, fun i hi => if_pos hi⟩

theorem fits_kept : KeptByCalls Store.Fresh Store.KeepsLayout Handle.Fits where
  refl := .refl
  trans := .trans
  store := Store.KeepsLayout.fresh
  handle := Handle.Fits.keeps
  lock := SameHeaders.keepsLayout
  unlink := Store.Fresh.unlink
  shmCreate := Store.Fresh.shmCreate
  flag := fun hm hseg => hm.set_of_layout hseg rfl
  unmapped := fun _ hobj => Handle.fits_of_none hobj
  opened := fun {m obj seg} h hm hseg =>
    attach_fits hm h (hm obj seg hseg)
      fun seg₀ hseg₀ => by rw [some.inj (hseg.symm.trans hseg₀)]
  made := fun {m obj} h msgSize blockNum hm hnone hobj => by
    -- the object has just been made, so there is no layout to be kept
    refine attach_fits hm h hobj fun seg₀ hseg₀ => ?_
    rw [hnone] at hseg₀
    cases hseg₀

theorem destroy_fits {os : Os} {ok : Bool} (hm : m.Fresh) (hh : h.Fits m)
    (hcall : destroy os m h = some (ok, m', h')) : m.KeepsLayout m' ∧ h'.Fits m' := by
  rw [destroy] at hcall
  split at hcall
  swap
  · cases hcall
    exact ⟨.refl hm, hh⟩
  split at hcall
  · cases hcall
  split at hcall
  · cases hcall
  rename_i obj _ _ seg hseg
  have hset : m.KeepsLayout (m.set obj seg.decreaseReferenceCounts) := hm.set_of_layout hseg rfl
  have hdetached : Handle.Fits { h with init := false } m := hh
  simp only at hcall
  split at hcall
  · cases hcall
    rw [remove]
    split
    · have hunlink := hset.trans (hset.fresh.unlink h.shmName)
      exact ⟨hunlink, hdetached.keeps hunlink⟩
    · exact ⟨hset, hdetached.keeps hset⟩
  · cases hcall
    exact ⟨hset, hdetached.keeps hset⟩

/-- **What every call keeps.** -/
theorem run_fits {c : Call} (hm : m.Fresh) (hh : h.Fits m) (hcall : c.run m h = some (m', h')) :
    m.KeepsLayout m' ∧ h'.Fits m' := by
  cases c with
  | create os =>
    obtain ⟨⟨ok, _, _⟩, hcall, ⟨⟩⟩ := map_eq_some_iff.mp hcall
    exact fits_kept.create hm hh hcall
  | openOnly os =>
    have heq : (ShmTest.openOnly os m h).2 = (m', h') := some.inj hcall
    have hopen := fits_kept.openOnly os hm hh
    rwa [heq] at hopen
  | acquireBlockToWrite | releaseWrittenBlock | releaseReadBlock =>
    obtain ⟨hsame, rfl⟩ := Call.run_sameHeaders hcall trivial
    have hkeeps := hsame.keepsLayout hm
    exact ⟨hkeeps, hh.keeps hkeeps⟩
  | acquireBlockToRead env index =>
    obtain ⟨⟨out, _, _⟩, hcall, ⟨⟩⟩ := map_eq_some_iff.mp hcall
    exact fits_kept.acquireBlockToRead hm hh hcall
  | destroy os =>
    obtain ⟨⟨ok, _, _⟩, hcall, ⟨⟩⟩ := map_eq_some_iff.mp hcall
    exact destroy_fits hm hh hcall
  | crash =>
    obtain ⟨⟩ := some.inj hcall
    exact ⟨.refl hm, Handle.fits_of_none rfl⟩

/-- Every round of `Create` sizes its object from the same configuration, if this is coherent. -/
theorem createLength_of_create (hinit : h.init = false) (hconf : h.conf.Coherent)
    (hcall : create os m h = some (true, m', h')) :
    createLength os m h = some h.conf.managedShmSize := by
  induction os generalizing m h m' h' with
  | nil => cases hcall
  | cons os rest ih =>
    rw [create, if_neg (by simp [hinit])] at hcall
    rw [createLength, if_neg (by simp [hinit])]
    cases hname : m.named h.shmName with
    | none =>
      simp only [hname, createNew] at hcall ⊢
      cases hopen : os.shmOpen <;> cases htrunc : os.ftruncate <;>
        simp [hopen, htrunc] at hcall ⊢
    | some obj =>
      simp only [hname] at hcall ⊢
      split at hcall
      · rename_i hopen
        rw [recreate] at hcall
        split at hcall
        · cases hcall
        rename_i ok₁ m₁ h₁ hcall₁
        have hok : ok₁ = true := by
          cases ok₁ with
          | true => rfl
          | false => simp at hcall
        subst hok
        rw [if_pos hopen]
        have hconf' : h.reset.conf.update h.conf.getMsgSize h.conf.blockNum = h.conf := hconf
        rw [hconf'] at hcall₁
        have hrest := ih (h := { h.reset with conf := h.conf }) rfl hconf hcall₁
        exact hconf'.symm ▸ hrest
      · cases hcall

end Calls

/-! ### Runs -/

section Runs

variable {T : Type*} {s s' : Threads SizedStore T Handle}

/-- All handles fit their objects. -/
structure SizedStore.Fits (s : Threads SizedStore T Handle) : Prop where
  fresh : s.mem.store.Fresh
  fits : ∀ t, (s.pc t).Fits s.mem.store

theorem SizedStore.fits_init (name pid : T → ℕ) (conf : T → ShmConf) (dead : ℕ → Bool) :
    SizedStore.Fits (SizedStore.init name pid conf dead) := by
  constructor
  · intro obj seg hseg
    cases hseg
  · intro t
    exact Handle.fits_of_none rfl

variable [DecidableEq T]

theorem SizedStore.Fits.step {e : T × Call} (hs : Fits s)
    (hstep : Threads.step (fun m h (c : Call) => c.runSized m h) s e = some s') :
    Fits s' ∧ s.mem.store.KeepsLayout s'.mem.store ∧
      ∀ obj < s.mem.store.next, s'.mem.size obj = s.mem.size obj := by
  obtain ⟨t, c⟩ := e
  obtain ⟨⟨m', h'⟩, hcall, hres⟩ := map_eq_some_iff.mp (prog_of_step hstep)
  obtain ⟨hmem, hpc⟩ := Prod.mk.inj hres
  obtain ⟨hkeeps, hfits⟩ := run_fits hs.fresh (hs.fits t) hcall
  rw [← hmem]
  refine ⟨⟨hmem ▸ hkeeps.fresh, fun u => ?_⟩, hkeeps, fun obj hobj => ?_⟩
  · by_cases hu : u = t
    · subst hu
      rw [← hpc, ← hmem]
      exact hfits
    · rw [pc_of_ne hstep hu, ← hmem]
      exact (hs.fits u).keeps hkeeps
  · change c.sizes s.mem (s.pc t) obj = s.mem.size obj
    fun_cases Call.sizes s.mem (s.pc t) c
    · exact update_of_ne hobj.ne ..
    · rfl
    · rfl

/-- An object with its size and layout. -/
structure SizedStore.Holds (obj size : ℕ) (layout : ℕ × ℕ) (s : Threads SizedStore T Handle) :
    Prop where
  fits : Fits s
  size : s.mem.size obj = size
  layout : ∃ seg, s.mem.store.shm obj = some seg ∧ seg.layout = layout

theorem SizedStore.Holds.exec {obj size : ℕ} {layout : ℕ × ℕ} {es : List (T × Call)}
    (hs : Holds obj size layout s)
    (hrun : exec (Threads.step fun m h (c : Call) => c.runSized m h) s es = some s') :
    Holds obj size layout s' := by
  refine exec_invariant (Holds obj size layout) (fun s e s' hs hstep => ?_) hs hrun
  obtain ⟨hfits, hkeeps, hsize⟩ := hs.fits.step hstep
  obtain ⟨seg, hseg, heq⟩ := hs.layout
  obtain ⟨seg', hseg', heq'⟩ := hkeeps.keeps obj seg hseg
  exact ⟨hfits, (hsize obj (hs.fits.fresh obj seg hseg)).trans hs.size, seg', hseg',
    heq'.trans heq⟩

theorem SizedStore.create_step {t : T} (hinit : (s.pc t).init = false)
    (hconf : (s.pc t).conf.Coherent)
    (hstep : Threads.step (fun m h (c : Call) => c.runSized m h) s (t, .create os) = some s')
    (hok : (s'.pc t).init = true) :
    createLength os s.mem.store (s.pc t) = some (s.pc t).conf.managedShmSize ∧
      (s'.pc t).obj = some s.mem.store.next ∧ (s'.pc t).conf = (s.pc t).conf ∧
      s'.mem.size s.mem.store.next = (s.pc t).conf.managedShmSize := by
  obtain ⟨⟨m', h'⟩, hcall, hres⟩ := map_eq_some_iff.mp (prog_of_step hstep)
  obtain ⟨⟨ok, _, _⟩, hcall, ⟨⟩⟩ := map_eq_some_iff.mp hcall
  obtain ⟨hmem, hpc⟩ := Prod.mk.inj hres
  obtain rfl := hpc
  obtain ⟨-, ⟨htrue, -⟩ | ⟨-, -, hfalse, -⟩ | ⟨-, rfl, seg, hcreated⟩⟩ := create_cases hcall
  · rw [hinit] at htrue
    cases htrue
  · rw [hfalse] at hok
    cases hok
  · have hlength := createLength_of_create hinit hconf hcall
    refine ⟨hlength, hcreated.obj, hcreated.conf.trans hconf, ?_⟩
    rw [← hmem]
    simp only [Call.sizes, hlength, update_self]

/-- **Creator and readers agree.** A handle with the configuration of a topic makes an object, in
one round or through `Recreate`, after any calls of any handles. Then, after any further calls of
any handles, everybody who maps the object has the layout of the configuration and the addresses
of the buffers that belong to it, and `Reset` unmaps as many bytes as `Create` has mapped and as
`OpenOnly` maps. The `State`, the blocks and the buffers are disjoint and lie in these bytes. -/
theorem layout_agrees (hsize : prop.blockSize < 2 ^ 32)
    (hcount : prop.blockCount < 2 ^ 32) {name pid : T → ℕ} {conf : T → ShmConf} {dead : ℕ → Bool}
    {s₀ s₁ s₂ : Threads SizedStore T Handle} {es₀ es : List (T × Call)} {t : T}
    (h₀ : exec (Threads.step fun m h (c : Call) => c.runSized m h)
      (SizedStore.init name pid conf dead) es₀ = some s₀)
    (hinit : (s₀.pc t).init = false) (hconf : (s₀.pc t).conf = .ofProp prop)
    (hcreate : Threads.step (fun m h (c : Call) => c.runSized m h) s₀ (t, .create os) = some s₁)
    (hok : (s₁.pc t).init = true)
    (hrun : exec (Threads.step fun m h (c : Call) => c.runSized m h) s₁ es = some s₂) :
    (s₁.pc t).conf = .ofProp prop ∧
      createLength os s₀.mem.store (s₀.pc t) = some (ShmConf.ofProp prop).managedShmSize ∧
      (ShmConf.ofProp prop).managedShmSize < 2 ^ 64 ∧
      ∃ obj, (s₁.pc t).obj = some obj ∧
        (∀ u, (s₂.pc u).obj = some obj →
          (s₂.pc u).conf.layout = (ShmConf.ofProp prop).layout ∧
          (s₂.pc u).resetLength = some (ShmConf.ofProp prop).managedShmSize ∧
          ∀ i < prop.blockCount, (s₂.pc u).blockBufAddrs i =
            some ⟨obj, prop.blockCount, (ShmConf.ofProp prop).blockBufSize, i⟩) ∧
        (∀ u, s₂.mem.store.named (s₂.pc u).shmName = some obj →
          openOnlyLength s₂.mem (s₂.pc u) = some (ShmConf.ofProp prop).managedShmSize) ∧
        ∀ sizeofState ≤ Cyber.ShmConf.stateSize, ∀ sizeofBlock ≤ Cyber.ShmConf.blockSize,
          ((ShmConf.ofProp prop).parts obj sizeofState sizeofBlock).Pairwise
            (fun a b => a.1 + a.2 ≤ b.1) ∧
          ∀ p ∈ (ShmConf.ofProp prop).parts obj sizeofState sizeofBlock,
            p.1 + p.2 ≤ (ShmConf.ofProp prop).managedShmSize := by
  have hfits₀ : SizedStore.Fits s₀ :=
    exec_invariant SizedStore.Fits (fun s e s' hs hstep => (hs.step hstep).1)
      (SizedStore.fits_init name pid conf dead) h₀
  have hcoherent : (s₀.pc t).conf.Coherent := hconf ▸ ShmConf.coherent_ofProp hsize
  obtain ⟨hlength, hobj, hconf₁, hsize₁⟩ := SizedStore.create_step hinit hcoherent hcreate hok
  rw [hconf] at hlength hconf₁ hsize₁
  obtain ⟨hfits₁, -, -⟩ := hfits₀.step hcreate
  -- the `State` that the creator has written leads to its own configuration
  obtain ⟨seg, hseg, hupdate, -⟩ := hfits₁.fits t _ hobj
  have hlayout : ((ShmConf.ofProp prop).update seg.ceilingMsgSize seg.blockNum).layout =
      (ShmConf.ofProp prop).layout := by
    rw [← hconf₁, ← hupdate]
  have hholds : SizedStore.Holds s₀.mem.store.next (ShmConf.ofProp prop).managedShmSize
      seg.layout s₂ := SizedStore.Holds.exec ⟨hfits₁, hsize₁, seg, hseg, rfl⟩ hrun
  obtain ⟨seg₂, hseg₂, heq⟩ := hholds.layout
  obtain ⟨hceiling, hnum⟩ := Prod.mk.inj heq
  refine ⟨hconf₁, hlength, ShmConf.managedShmSize_lt hcount, s₀.mem.store.next, hobj,
    fun u hu => ?_, fun u hu => ?_, fun sizeofState hstate sizeofBlock hblock =>
      ⟨ShmConf.pairwise_parts, fun p hp => ShmConf.parts_le hstate hblock hp⟩⟩
  · obtain ⟨seg', hseg', hupdate', hbufs⟩ := hholds.fits.fits u _ hu
    obtain rfl : seg₂ = seg' := some.inj (hseg₂.symm.trans hseg')
    have hlayout₂ : (s₂.pc u).conf.layout = (ShmConf.ofProp prop).layout := by
      rw [hupdate', hceiling, hnum, ← hlayout]
      rfl
    have hparts := Prod.mk.inj hlayout₂
    have hbuf := Prod.mk.inj hparts.2
    have hmanaged := Prod.mk.inj hbuf.2
    have hnum₂ : (s₂.pc u).conf.blockNum = prop.blockCount := hmanaged.1
    refine ⟨hlayout₂, ?_, fun i hi => ?_⟩
    · rw [Handle.resetLength, hu, ← hmanaged.2]
      rfl
    · rw [hbufs i (hnum₂ ▸ hi), hnum₂, hbuf.1]
  · rw [openOnlyLength, hu, map_some, hholds.size]

end Runs

/-- Handles of one name with three configurations. -/
def threeConfs (t : ℕ) : ShmConf :=
  if t = 0 then .ofProp ⟨"topic", 1000000, 3⟩
  else if t = 1 then .ofProp ⟨"topic", 8, 1⟩ else .default

/-- Handle `1` makes an object, handle `0` replaces it, and handle `2`, with the default
configuration, opens what it finds. It gets the layout that handle `0` is configured with. -/
theorem layout_agrees_recreate :
    ∃ s, exec (Threads.step fun m h (c : Call) => c.runSized m h)
        (SizedStore.init (fun _ => 0) id threeConfs fun _ => false)
        [(1, .create [{}]), (0, .create [{}, {}]), (2, .openOnly {})] = some s ∧
      (s.pc 2).conf.layout = (1048576, 1049600, 3, 3156992) := by
  obtain ⟨s₀, h₀, hinit, hconf, s₁, h₁, hok, hobj, s₂, h₂, hobj₂⟩ :
      ∃ s₀, exec (Threads.step fun m h (c : Call) => c.runSized m h)
          (SizedStore.init (fun _ => 0) id threeConfs fun _ => false)
          [(1, .create [{}])] = some s₀ ∧
        (s₀.pc 0).init = false ∧ (s₀.pc 0).conf = .ofProp ⟨"topic", 1000000, 3⟩ ∧
        ∃ s₁, exec (Threads.step fun m h (c : Call) => c.runSized m h) s₀
            [(0, .create [{}, {}])] = some s₁ ∧
          (s₁.pc 0).init = true ∧ (s₁.pc 0).obj = some 1 ∧
          ∃ s₂, exec (Threads.step fun m h (c : Call) => c.runSized m h) s₁
              [(2, .openOnly {})] = some s₂ ∧
            (s₂.pc 2).obj = some 1 := by
    decide +kernel
  refine ⟨s₂, exec_append_eq_some.mpr ⟨s₀, h₀, exec_append_eq_some.mpr ⟨s₁, h₁, h₂⟩⟩, ?_⟩
  obtain ⟨s₁', hstep, ⟨⟩⟩ := exec_cons_eq_some.mp h₁
  obtain ⟨-, -, -, obj, hcreated, hagree, -⟩ :=
    layout_agrees (by decide) (by decide) h₀ hinit hconf hstep hok h₂
  exact (hagree 2 (hobj₂.trans (hobj.symm.trans hcreated))).1

end ShmTest
