import Notebook.Cyber.Transport.Shm.Segment

/-!
# The room in a block that a writer acquires

`ShmTransmitter::Transmit` writes the payload and then `MessageInfo::kSize` bytes into the block
that `AcquireBlockToWrite` returns. The call replaces the object when the message is larger than the
ceiling in force, but it does not compare again afterwards: the object that `Recreate` ends with may
be of the largest class, which stands for every larger message, or may be one that another process
has created in the meantime for smaller messages.
-/

open Interleaving

namespace Cyber.Segment

/-! ### The fields of a mapped segment -/

/-- The pointers lead into `obj`, and the address of every block is recorded. -/
structure Handle.Attached (h : Handle) (obj : ℕ) : Prop where
  obj_eq : h.obj = some obj
  addrs : ∀ i < h.conf.blockNum, h.blockBufAddrs i = some (bufAddr obj h.conf i)

/-- What the origin of a mapping says about its configuration. -/
def Origin.Describes (msgSize : ℕ) (conf : ShmConf) : Origin → Prop
  | .kept => msgSize ≤ conf.ceilingMsgSize
  | .created => conf = .update msgSize
  | .opened ceilingMsgSize => conf = .update ceilingMsgSize

/-- What holds of the fields where a process is in `AcquireBlockToWrite`. -/
def Pc.Sound (h : Handle) : Pc → Prop
  | .create n true => h.conf = .update n
  | .construct n true _ => h.conf = .update n
  | .writeNeedRemap _ => h.init
  | .remove _ => h.init = false
  | .nextWritable n origin => h.init ∧ origin.Describes n h.conf
  | .writing n origin i buf =>
    h.init ∧ origin.Describes n h.conf ∧ i < h.conf.blockNum ∧ buf = h.blockBufAddrs i
  | _ => True

/-- What a process knows about its own fields. -/
structure Process.Sound (p : Process) : Prop where
  conf : ∃ n, p.handle.conf = .update n
  attached : p.handle.init → ∃ obj, p.handle.Attached obj
  pc : p.pc.Sound p.handle

theorem Process.Sound.of_unmapped {h : Handle} {l : Pc} (hconf : ∃ n, h.conf = .update n)
    (hinit : h.init = false) (hpc : l.Sound h) : Process.Sound ⟨h, l⟩ where
  conf := hconf
  attached hinit' := absurd (hinit.symm.trans hinit') Bool.false_ne_true
  pc := hpc

theorem sound_new : Process.Sound ⟨.new, .idle⟩ := .of_unmapped ⟨_, rfl⟩ rfl trivial

variable {m m' : Store} {p p' : Process} {h : Handle} {l : Pc} {a : Act}

theorem sound_attach {obj : ℕ} {pc : Handle → Pc} (h' : attach m h obj pc = (m', p'))
    (hpc : (pc (h.attach obj (m.shm obj).ceilingMsgSize)).Sound
      (h.attach obj (m.shm obj).ceilingMsgSize)) : p'.Sound := by
  obtain ⟨-, rfl⟩ := Prod.mk.inj h'
  exact ⟨⟨_, rfl⟩, fun _ => ⟨obj, rfl, fun _ hi => if_pos hi⟩, hpc⟩

theorem sound_sizeTest {n : ℕ} (hinit : h.init) : (sizeTest h n).Sound h :=
  iteInduction (fun _ => trivial) fun hn => ⟨hinit, not_lt.mp hn⟩

theorem sound_rangeTest {i : ℕ} : (rangeTest h i).Sound h :=
  iteInduction (fun _ => trivial) fun _ => trivial

theorem ceilingMsgSize_construct (m : Store) (obj c : ℕ) :
    ((m.construct obj c).shm obj).ceilingMsgSize = c := by
  simp [Store.construct, Store.modify]

theorem sound_access (hp : Process.Sound ⟨h, l⟩) (hs : access m h l a = some (m', p')) :
    p'.Sound := by
  obtain ⟨hconf, hatt, hpc⟩ := hp
  revert hs
  fun_cases access m h l a <;> simp only [Option.some.injEq, reduceCtorEq, IsEmpty.forall_iff] <;>
    intro hs
  -- the five ways to map an object
  case case5 n grow obj =>
    refine sound_attach hs ?_
    cases grow with
    | false => rfl
    | true =>
      have hconf : h.conf = .update n := hpc
      refine ⟨rfl, ?_⟩
      rw [ceilingMsgSize_construct, hconf]
      exact ShmConf.update_ceilingMsgSize n
  case case8 n grow ok obj hobj =>
    refine sound_attach hs ?_
    cases grow with
    | false => rfl
    | true => exact ⟨rfl, rfl⟩
  case case12 => exact sound_attach hs (sound_sizeTest rfl)
  case case22 => exact sound_attach hs sound_rangeTest
  case case26 => exact sound_attach hs trivial
  all_goals obtain ⟨-, rfl⟩ := Prod.mk.inj hs
  case case1 => exact ⟨hconf, hatt, iteInduction id fun _ => trivial⟩
  case case3 n grow hnamed =>
    refine ⟨hconf, hatt, ?_⟩
    cases grow with
    | false => trivial
    | true => exact hpc
  case case10 => exact ⟨hconf, hatt, iteInduction (fun _ => trivial) fun _ => sound_sizeTest hpc⟩
  case case13 => exact .of_unmapped hconf rfl (iteInduction (fun _ => trivial) fun _ => trivial)
  case case14 => exact .of_unmapped hconf rfl rfl
  case case16 n ok => exact .of_unmapped ⟨n, rfl⟩ hpc rfl
  case case17 n origin ok obj hobj index =>
    obtain ⟨c, hc⟩ := hconf
    have hlt : index < h.conf.blockNum := Nat.mod_lt _ (hc ▸ ShmConf.blockNum_update_pos c)
    exact ⟨⟨c, hc⟩, hatt, iteInduction (fun _ => ⟨hpc.1, hpc.2, hlt, rfl⟩) fun _ => hpc⟩
  case case20 => exact ⟨hconf, hatt, iteInduction (fun _ => sound_rangeTest) fun _ => trivial⟩
  case case24 => exact ⟨hconf, hatt, iteInduction (fun _ => trivial) fun _ => trivial⟩
  case case27 => exact .of_unmapped hconf rfl trivial
  case case28 => exact ⟨hconf, hatt, iteInduction (fun _ => trivial) fun _ => trivial⟩
  case case30 => exact .of_unmapped hconf rfl trivial
  all_goals exact ⟨hconf, hatt, trivial⟩

variable {T : Type*} [DecidableEq T]

/-- **What a process knows about its own fields**, along every run. -/
theorem sound_of_exec {es : List (T × Act)} {s : State T} (h : exec step (init T) es = some s)
    (t : T) : (s.pc t).Sound := by
  refine exec_invariant (fun s : State T => ∀ t, (s.pc t).Sound) ?_ (fun _ => sound_new) h t
  rintro s ⟨t, a⟩ s' hs hstep
  exact Threads.forall_pc_step hstep hs fun m p hp => sound_access (hs t) hp

/-! ### Room for the message -/

/-- The message sizes for which a block has room besides the message info, by the origin of the
mapping. -/
def Origin.Fits (msgSize : ℕ) : Origin → Prop
  | .kept => True
  | .created => msgSize ≤ ShmConf.messageSizeMore + 1000
  | .opened ceilingMsgSize => msgSize ≤ ShmConf.getCeilingMessageSize ceilingMsgSize + 1000

theorem Origin.Describes.fits_iff {origin : Origin} {n c : ℕ}
    (h : origin.Describes n (.update c)) :
    n + MessageInfo.kSize ≤ (ShmConf.update c).blockBufSize ↔ origin.Fits n := by
  cases origin with
  | kept =>
    have hle : n ≤ ShmConf.getCeilingMessageSize c := h
    rw [ShmConf.blockBufSize_update, ShmConf.fits_iff]
    exact iff_of_true (by omega) trivial
  | created => rw [show ShmConf.update c = .update n from h, ShmConf.fits_update_iff, Origin.Fits]
  | opened e =>
    rw [show ShmConf.update c = .update e from h, ShmConf.blockBufSize_update, ShmConf.fits_iff,
      Origin.Fits]

/-- **When an acquired block has room for the message.** Whenever `AcquireBlockToWrite` has
returned `true`, the returned buffer is the recorded one of a block of the mapped object, and its
`block_buf_size` bytes have room for the message and the message info exactly in these cases: the
message was not larger than the ceiling in force when it was tested; or `Recreate` created the
object, and the message is at most a thousand bytes above the largest class; or `Recreate` opened
an object of another process, and the message is at most a thousand bytes above its class. -/
theorem block_fits_iff {es : List (T × Act)} {s : State T} (h : exec step (init T) es = some s)
    {t : T} {n index : ℕ} {origin : Origin} {buf : Option BufAddr}
    (ht : (s.pc t).pc = .writing n origin index buf) :
    (∃ obj, (s.pc t).handle.obj = some obj ∧ index < (s.pc t).handle.conf.blockNum ∧
      buf = some (bufAddr obj (s.pc t).handle.conf index)) ∧
    (n + MessageInfo.kSize ≤ (s.pc t).handle.conf.blockBufSize ↔ origin.Fits n) := by
  obtain ⟨⟨c, hc⟩, hatt, hpc⟩ := sound_of_exec h t
  rw [ht] at hpc
  obtain ⟨hinit, hdesc, hlt, rfl⟩ := hpc
  obtain ⟨obj, hobj⟩ := hatt hinit
  refine ⟨⟨obj, hobj.obj_eq, hlt, hobj.addrs index hlt⟩, ?_⟩
  rw [hc] at hdesc ⊢
  exact hdesc.fits_iff

/-- The process `t` makes its next `k` accesses, all with success. -/
def steps (t : T) (k : ℕ) : List (T × Act) := List.replicate k (t, .step true)

/-- The process `t` makes the action `a` and then `k` accesses, all with success. -/
def calls (t : T) (a : Act) (k : ℕ) : List (T × Act) := (t, a) :: steps t k

/-- A message of 100000 bytes is written into a block of the object that `Recreate` has made for
it. -/
theorem block_fits_of_recreate :
    ∃ s : State ℕ,
      exec step (init ℕ) (calls 0 (.acquireBlockToWrite 100000) 8) = some s ∧
        100000 + MessageInfo.kSize ≤ (s.pc 0).handle.conf.blockBufSize := by
  obtain ⟨s, hs, ht⟩ := Option.map_eq_some_iff.mp
    (show (exec step (init ℕ) (calls 0 (.acquireBlockToWrite 100000) 8)).map
        (fun s => (s.pc 0).pc) =
      some (.writing 100000 .created 0 (some ⟨1, 128, 132096, 0⟩)) from rfl)
  have hfits : 100000 ≤ ShmConf.messageSizeMore + 1000 := by decide
  exact ⟨s, hs, (block_fits_iff hs ht).2.mpr hfits⟩

/-- Process 1 wants an object for 200000 bytes. Between the `Remove` and the `OpenOrCreate` of its
`Recreate`, process 0 finds its own object outdated and the name free, and with its next message
creates an object for small messages, which process 1 then opens. -/
def overtaken : List (ℕ × Act) :=
  calls 0 (.acquireBlockToWrite 100) 4 ++ calls 0 .release 0 ++
    calls 1 (.acquireBlockToWrite 200000) 5 ++
    calls 0 (.acquireBlockToWrite 100) 2 ++ calls 0 (.acquireBlockToWrite 100) 2 ++ steps 1 3

/-- Two blocks that are too small: for a message 1001 bytes above the largest class, and for the
message of the process that was overtaken. -/
theorem block_too_small :
    (∃ s : State ℕ, exec step (init ℕ)
        (calls 0 (.acquireBlockToWrite (ShmConf.messageSizeMore + 1001)) 8) = some s ∧
      (∃ buf, (s.pc 0).pc = .writing (ShmConf.messageSizeMore + 1001) .created 0 buf) ∧
      (s.pc 0).handle.conf.blockBufSize <
        ShmConf.messageSizeMore + 1001 + MessageInfo.kSize) ∧
    (∃ s : State ℕ, exec step (init ℕ) overtaken = some s ∧
      (∃ origin buf, (s.pc 1).pc = .writing 200000 origin 0 buf) ∧
      (s.pc 1).handle.conf.blockBufSize < 200000 + MessageInfo.kSize) :=
  ⟨⟨_, rfl, ⟨_, rfl⟩, by decide⟩, ⟨_, rfl, ⟨_, _, rfl⟩, by decide⟩⟩

end Cyber.Segment
