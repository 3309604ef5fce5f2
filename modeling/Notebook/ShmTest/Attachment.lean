import Notebook.ShmTest.AllocMemoryRuns

/-!
# Handles and the blocks of their objects

A handle that is initialised maps an object, and it has taken the number of blocks from the `State`
of this object. Objects keep the number of blocks with which they have been made. So the block count
in the configuration of an initialised handle is the number of blocks of the object it is attached
to, whatever is done with this and other handles and objects. A handle that is not initialised is
not attached, and its block count says nothing.
-/

open Interleaving Function Option

namespace ShmTest

/-- The objects created so far have as many blocks as their `State` says, and no other object has
contents. -/
structure Store.Sane (m : Store) : Prop where
  lt_next : ∀ obj seg, m.shm obj = some seg → obj < m.next
  length : ∀ obj seg, m.shm obj = some seg → seg.blocks.length = seg.blockNum

/-- The handle is attached to the object `obj` with the contents `seg`, and knows its blocks. -/
structure Handle.Maps (h : Handle) (m : Store) (obj : ℕ) (seg : Segment) : Prop where
  obj_eq : h.obj = some obj
  shm : m.shm obj = some seg
  blockNum : seg.blockNum = h.conf.blockNum
  blockBufAddrs : ∀ i < h.conf.blockNum,
    h.blockBufAddrs i = some ⟨obj, h.conf.blockNum, h.conf.blockBufSize, i⟩

/-- The handle is attached exactly when it is initialised. -/
structure Handle.Sane (h : Handle) (m : Store) : Prop where
  maps : h.init = true → ∃ obj seg, h.Maps m obj seg
  obj_eq_none : h.init = false → h.obj = none

/-- From the first store to the second, no object has lost its contents or changed the number of its
blocks, and the objects are still as they should be. -/
structure Store.Evolves (m m' : Store) : Prop where
  sane : m'.Sane
  keeps : ∀ obj seg, m.shm obj = some seg →
    ∃ seg', m'.shm obj = some seg' ∧ seg'.blockNum = seg.blockNum

section Stores

variable {m m' m'' : Store} {h : Handle} {obj : ℕ} {seg : Segment}

theorem Handle.Maps.segment (hmaps : h.Maps m obj seg) : m.segment h = some seg := by
  rw [Store.segment, hmaps.obj_eq]
  exact hmaps.shm

theorem Store.Evolves.refl (hm : m.Sane) : m.Evolves m := ⟨hm, fun _ seg hseg => ⟨seg, hseg, rfl⟩⟩

theorem Store.Evolves.trans (h : m.Evolves m') (h' : m'.Evolves m'') : m.Evolves m'' := by
  refine ⟨h'.sane, fun obj seg hseg => ?_⟩
  obtain ⟨seg₁, hseg₁, hnum₁⟩ := h.keeps obj seg hseg
  obtain ⟨seg₂, hseg₂, hnum₂⟩ := h'.keeps obj seg₁ hseg₁
  exact ⟨seg₂, hseg₂, hnum₂.trans hnum₁⟩

theorem Handle.Sane.evolves (hh : h.Sane m) (hm : m.Evolves m') : h.Sane m' := by
  refine ⟨fun hinit => ?_, hh.obj_eq_none⟩
  obtain ⟨obj, seg, hmaps⟩ := hh.maps hinit
  obtain ⟨seg', hseg', hnum⟩ := hm.keeps obj seg hmaps.shm
  exact ⟨obj, seg', hmaps.obj_eq, hseg', hnum.trans hmaps.blockNum, hmaps.blockBufAddrs⟩

theorem Handle.sane_of_not_init (hinit : h.init = false) (hobj : h.obj = none) : h.Sane m :=
  ⟨fun htrue => absurd (hinit.symm.trans htrue) (by decide), fun _ => hobj⟩

theorem Store.Sane.set (hm : m.Sane) (hobj : obj < m.next)
    (hlength : seg.blocks.length = seg.blockNum)
    (hseg : ∀ seg₀, m.shm obj = some seg₀ → seg.blockNum = seg₀.blockNum) :
    m.Evolves (m.set obj seg) := by
  refine ⟨⟨fun o seg' hseg' => ?_, fun o seg' hseg' => ?_⟩, fun o seg₀ hseg₀ => ?_⟩
  all_goals by_cases ho : o = obj
  · exact ho ▸ hobj
  · exact hm.lt_next o seg' (by simpa [Store.set, ho] using hseg')
  · subst ho
    obtain rfl : seg = seg' := by simpa [Store.set] using hseg'
    exact hlength
  · exact hm.length o seg' (by simpa [Store.set, ho] using hseg')
  · subst ho
    exact ⟨seg, Store.set_shm .., hseg seg₀ hseg₀⟩
  · exact ⟨seg₀, by simpa [Store.set, ho] using hseg₀, rfl⟩

theorem SameHeaders.evolves (hm : m.Sane) (h : SameHeaders m m') : m.Evolves m' := by
  have hheader {m m' : Store} {obj : ℕ} {seg : Segment}
      (h : (m'.shm obj).map Segment.header = (m.shm obj).map Segment.header)
      (hseg : m.shm obj = some seg) :
      ∃ seg', m'.shm obj = some seg' ∧ seg'.blockNum = seg.blockNum ∧
        seg'.blocks.length = seg.blocks.length := by
    rw [hseg, map_some, map_eq_some_iff] at h
    obtain ⟨seg', hseg', heq⟩ := h
    simp only [Segment.header, Prod.mk.injEq] at heq
    exact ⟨seg', hseg', heq.2.2.2.1, heq.2.2.2.2⟩
  refine ⟨⟨fun obj seg' hseg' => ?_, fun obj seg' hseg' => ?_⟩, fun obj seg hseg => ?_⟩
  · obtain ⟨seg, hseg, -⟩ := hheader (h.header obj).symm hseg'
    exact h.next ▸ hm.lt_next obj seg hseg
  · obtain ⟨seg, hseg, hnum, hlength⟩ := hheader (h.header obj).symm hseg'
    rw [← hlength, ← hnum]
    exact hm.length obj seg hseg
  · obtain ⟨seg', hseg', hnum, -⟩ := hheader (h.header obj) hseg
    exact ⟨seg', hseg', hnum⟩

theorem Store.Sane.unlink (hm : m.Sane) (shmName : ℕ) : m.Evolves (m.unlink shmName) :=
  ⟨⟨hm.lt_next, hm.length⟩, fun _ seg hseg => ⟨seg, hseg, rfl⟩⟩

theorem Store.Sane.shm_next (hm : m.Sane) : m.shm m.next = none := by
  cases hseg : m.shm m.next with
  | none => rfl
  | some seg => exact absurd (hm.lt_next _ seg hseg) (lt_irrefl _)

theorem Store.Sane.shmCreate (hm : m.Sane) (shmName : ℕ) : m.Evolves (m.shmCreate shmName) := by
  have hshm : (m.shmCreate shmName).shm = m.shm := by
    rw [Store.shmCreate, ← hm.shm_next]
    exact update_eq_self _ _
  refine ⟨⟨fun obj seg hseg => ?_, fun obj seg hseg => ?_⟩, fun obj seg hseg => ⟨seg, ?_, rfl⟩⟩
  · rw [hshm] at hseg
    exact (hm.lt_next obj seg hseg).trans (Nat.lt_succ_self _)
  · rw [hshm] at hseg
    exact hm.length obj seg hseg
  · rwa [hshm]

end Stores

/-! ### What the calls keep -/

/-- The parts of the calls keep the property `S` of the objects and the property `H` of a handle.
From one store to the next they lead by `K`. -/
structure KeptByCalls (S : Store → Prop) (K : Store → Store → Prop)
    (H : Handle → Store → Prop) : Prop where
  refl : ∀ {m}, S m → K m m
  trans : ∀ {m m' m''}, K m m' → K m' m'' → K m m''
  store : ∀ {m m'}, K m m' → S m'
  handle : ∀ {h m m'}, H h m → K m m' → H h m'
  lock : ∀ {m m'}, S m → SameHeaders m m' → K m m'
  unlink : ∀ {m}, S m → ∀ shmName, K m (m.unlink shmName)
  shmCreate : ∀ {m}, S m → ∀ shmName, K m (m.shmCreate shmName)
  flag : ∀ {m obj seg}, S m → m.shm obj = some seg → K m (m.set obj { seg with needRemap := true })
  unmapped : ∀ {h m}, h.init = false → h.obj = none → H h m
  opened : ∀ {m obj seg} h, S m → m.shm obj = some seg →
    K m (attach m h obj seg).1 ∧ H (attach m h obj seg).2 (attach m h obj seg).1
  made : ∀ {m obj} h msgSize blockNum, S m → m.shm obj = none → obj < m.next →
    K m (attach m h obj (.new msgSize blockNum)).1 ∧
      H (attach m h obj (.new msgSize blockNum)).2 (attach m h obj (.new msgSize blockNum)).1

variable (os : Os)

namespace KeptByCalls

variable {S : Store → Prop} {K : Store → Store → Prop} {H : Handle → Store → Prop} {m m' : Store}
  {h h' : Handle}

variable (hkept : KeptByCalls S K H)

include hkept

theorem openOnly (hm : S m) (hh : H h m) :
    K m (openOnly os m h).2.1 ∧ H (ShmTest.openOnly os m h).2.2 (ShmTest.openOnly os m h).2.1 := by
  rcases openOnly_cases os m h with ⟨-, heq⟩ | ⟨-, heq⟩ | ⟨-, obj, seg, -, hseg, heq⟩
  · rw [heq]
    exact ⟨hkept.refl hm, hh⟩
  · rw [heq]
    exact ⟨hkept.refl hm, hh⟩
  · rw [heq]
    exact hkept.opened h hm hseg

theorem remap (hm : S m) (h : Handle) :
    K m (remap os m h).2.1 ∧ H (ShmTest.remap os m h).2.2 (ShmTest.remap os m h).2.1 :=
  hkept.openOnly os hm (hkept.unmapped rfl rfl)

theorem createNew (hm : S m) (hh : H h m) : K m (createNew os m h).2.1 ∧
      H (ShmTest.createNew os m h).2.2 (ShmTest.createNew os m h).2.1 := by
  have hcreate := hkept.shmCreate hm h.shmName
  rw [ShmTest.createNew]
  split
  · simp only
    split
    · exact ⟨hcreate, hkept.handle hh hcreate⟩
    · split
      · have hunlink := hkept.trans hcreate (hkept.unlink (hkept.store hcreate) h.shmName)
        exact ⟨hunlink, hkept.handle hh hunlink⟩
      · have hmade := hkept.made h h.conf.getMsgSize h.conf.blockNum (hkept.store hcreate)
          (update_self ..) (Nat.lt_succ_self _)
        exact ⟨hkept.trans hcreate hmade.1, hmade.2⟩
  · exact ⟨hkept.refl hm, hh⟩

theorem setNeedRemap (hm : S m) (h : Handle) : K m (setNeedRemap m h) := by
  rw [ShmTest.setNeedRemap]
  split
  · exact hkept.refl hm
  split
  · exact hkept.refl hm
  · rename_i hseg
    exact hkept.flag hm hseg

theorem create {os : List Os} {ok : Bool} (hm : S m) (hh : H h m)
    (hcall : create os m h = some (ok, m', h')) : K m m' ∧ H h' m' := by
  induction os generalizing m h ok m' h' with
  | nil => cases hcall
  | cons os rest ih =>
    rw [ShmTest.create] at hcall
    split at hcall
    · cases hcall
      exact ⟨hkept.refl hm, hh⟩
    split at hcall
    · have hnew := hkept.createNew os hm hh
      rwa [some.inj hcall] at hnew
    split at hcall
    · rw [recreate] at hcall
      have hunlink : K m (if os.unlink then m.unlink h.reset.shmName else m) := by
        split
        · exact hkept.unlink hm _
        · exact hkept.refl hm
      split at hcall
      · cases hcall
      rename_i ok₁ m₁ h₁ hcall₁
      obtain ⟨hkeeps, hh'⟩ := ih (hkept.store hunlink) (hkept.unmapped rfl rfl) hcall₁
      have hkeeps := hkept.trans hunlink hkeeps
      split at hcall
      · cases hcall
        have hflag := hkept.setNeedRemap (hkept.store hkeeps) h'
        exact ⟨hkept.trans hkeeps hflag, hkept.handle hh' hflag⟩
      · cases hcall
        exact ⟨hkeeps, hh'⟩
    · cases hcall
      exact ⟨hkept.refl hm, hh⟩

theorem acquireBlockToRead {env : ReadEnv} {index : ℕ} {out : Acquired} (hm : S m) (hh : H h m)
    (hcall : acquireBlockToRead env m h index = some (out, m', h')) : K m m' ∧ H h' m' := by
  rw [ShmTest.acquireBlockToRead] at hcall
  obtain ⟨hopen, hopened⟩ := hkept.openOnly env.openOnly hm hh
  generalize ShmTest.openOnly env.openOnly m h = r at hcall hopen hopened
  simp only at hcall
  split at hcall
  · cases hcall
    exact ⟨hopen, hopened⟩
  split at hcall
  · cases hcall
    exact ⟨hopen, hopened⟩
  split at hcall
  · cases hcall
  split at hcall
  · obtain ⟨hremap, hremapped⟩ := hkept.remap env.remap (hkept.store hopen) r.2.2
    have hopen := hkept.trans hopen hremap
    split at hcall
    · cases hcall
      exact ⟨hopen, hremapped⟩
    · obtain ⟨hsame, rfl⟩ := lockToRead_sameHeaders hcall
      have hlock := hkept.lock (hkept.store hremap) hsame
      exact ⟨hkept.trans hopen hlock, hkept.handle hremapped hlock⟩
  · obtain ⟨hsame, rfl⟩ := lockToRead_sameHeaders hcall
    have hlock := hkept.lock (hkept.store hopen) hsame
    exact ⟨hkept.trans hopen hlock, hkept.handle hopened hlock⟩

end KeptByCalls

/-! ### Attaching -/

section Attaching

variable {m : Store} {h : Handle}

theorem attach_sane (hm : m.Sane) (h : Handle) (obj : ℕ) (seg : Segment) (hobj : obj < m.next)
    (hlength : seg.blocks.length = seg.blockNum)
    (hseg : ∀ seg₀, m.shm obj = some seg₀ → seg.blockNum = seg₀.blockNum) :
    m.Evolves (attach m h obj seg).1 ∧ (attach m h obj seg).2.Sane (attach m h obj seg).1 := by
  refine ⟨hm.set hobj hlength hseg, fun _ => ?_, fun hinit => by cases hinit⟩
  exact ⟨obj, seg.increaseReferenceCounts, rfl, Store.set_shm .., rfl, fun i hi => if_pos hi⟩

theorem sane_kept : KeptByCalls Store.Sane Store.Evolves Handle.Sane where
  refl := .refl
  trans := .trans
  store := Store.Evolves.sane
  handle := Handle.Sane.evolves
  lock := SameHeaders.evolves
  unlink := Store.Sane.unlink
  shmCreate := Store.Sane.shmCreate
  flag := fun {m obj seg} hm hseg =>
    hm.set (hm.lt_next obj seg hseg) (hm.length obj seg hseg)
      fun seg₀ hseg₀ => by rw [some.inj (hseg.symm.trans hseg₀)]
  unmapped := Handle.sane_of_not_init
  opened := fun {m obj seg} h hm hseg =>
    attach_sane hm h obj seg (hm.lt_next obj seg hseg) (hm.length obj seg hseg)
      fun seg₀ hseg₀ => by rw [some.inj (hseg.symm.trans hseg₀)]
  made := fun {m obj} h msgSize blockNum hm hnone hobj => by
    refine attach_sane hm h obj _ hobj (List.length_replicate ..) fun seg₀ hseg₀ => ?_
    rw [hnone] at hseg₀
    cases hseg₀

theorem openOnly_init (hok : (openOnly os m h).1 = true) : (openOnly os m h).2.2.init = true := by
  rcases openOnly_cases os m h with ⟨hinit, heq⟩ | ⟨-, heq⟩ | ⟨-, obj, seg, -, -, heq⟩
  · rw [heq]
    exact hinit
  · rw [heq] at hok
    cases hok
  · rw [heq]
    rfl

theorem remap_init (hok : (remap os m h).1 = true) : (remap os m h).2.2.init = true :=
  openOnly_init os hok

end Attaching

end ShmTest
