import Notebook.Cyber.Transport.Shm.ShmChannel

/-!
# The blocks of a channel over shared memory

The lock of a block protects its contents: a `Transmit` that holds a block is alone with it, and
what a dispatcher has found in a block that it holds stays there. A block that no `Transmit` is
writing to holds all that the last `Transmit` to take it has written, unless this one has failed.

## Main definitions

* `Pc.role` — what a thread holds of the lock of a block.
* `Pc.Sound` — what a thread knows of the contents of its block.
* `Inv` — the invariant of the runs in which the dispatchers read what was announced.

## Main results

* `Move.data_cases` — a move and the contents of a block.
* `Inv.step` — a step with a current read keeps the invariant.
-/

open Interleaving CountedLock ByteMemory Function List Option

namespace Cyber.ShmChannel

variable {M : Type*} {traits : MessageTraits M} {conf : ShmConf} {m m' : Channel M}
  {p p' : Process M}
  {l : Pc M} {a : Act M} {i : ℕ}

/-! ### The locks of the blocks -/

/-- The block that a thread is concerned with. -/
def Pc.index : Pc M → ℕ
  | .idle | .nextWritable _ => 0
  | .lockForWrite _ i | .serialize _ i | .setMsgSize _ i | .serializeInfo _ i | .setMsgInfoSize _ i
  | .releaseWritten _ i _ | .notify _ i | .lockForRead _ i _ | .readInfo _ i | .onMessage _ i _
  | .releaseRead i => i

/-- What a thread holds of the lock of that block. -/
def Pc.held : Pc M → Role
  | .serialize _ _ | .setMsgSize _ _ | .serializeInfo _ _ | .setMsgInfoSize _ _
  | .releaseWritten _ _ _ => .writer
  | .lockForRead _ _ l => l.role
  | .readInfo _ _ | .onMessage _ _ _ | .releaseRead _ => .reader
  | _ => .free

/-- What a thread holds of the lock of the block `i`. -/
def Pc.role (i : ℕ) (l : Pc M) : Role := if l.index = i then l.held else .free

/-- The block of a thread is one of the segment, and a thread in `TryLockForRead` knows what it has
tested there. -/
def Pc.Guarded (conf : ShmConf) : Pc M → Prop
  | .idle | .nextWritable _ => True
  | .lockForRead _ i l => i < conf.blockNum ∧ l.Guarded
  | l => l.index < conf.blockNum

theorem role_of_held_eq_free (h : l.held = .free) : l.role i = .free := by
  rw [Pc.role, h, ite_self]

theorem role_of_index_ne (h : l.index ≠ i) : l.role i = .free := if_neg h

theorem role_ne_writer (h : l.held ≠ .writer) : l.role i ≠ .writer := by
  unfold Pc.role
  split_ifs
  · exact h
  · simp

theorem role_ofTryLockForRead (number j : ℕ) (l : Block.Pc) :
    (Pc.ofTryLockForRead number j l : Pc M).role i = if j = i then l.role else .free := by
  by_cases hreading : l = .reading
  · subst hreading
    rfl
  · by_cases hidle : l = .idle
    · subst hidle
      exact (role_of_held_eq_free rfl).trans (ite_self _).symm
    · rw [Pc.ofTryLockForRead, if_neg hreading, if_neg hidle]
      rfl

theorem Move.guarded (h : Move traits conf m p l a m' p') (hpos : 0 < conf.blockNum)
    (hl : l.Guarded conf) : p'.pc.Guarded conf := by
  cases h with
  | fetchAddSeq => exact Nat.mod_lt _ hpos
  | listen _ _ _ _ hi => exact ⟨hi, trivial⟩
  | lockForRead number i l l' fail b htry =>
    have hguarded : l'.Guarded := Block.guarded_prog htry
    unfold Process.goto Pc.ofTryLockForRead
    split_ifs
    · exact hl.1
    · trivial
    · exact ⟨hl.1, hguarded⟩
  | _ => trivial

theorem op_free {n : ℤ} {l' : Pc M} (hl : l.held = .free) (hl' : l'.held = .free) :
    Op int32 n (l.role i) n (l'.role i) := by
  rw [role_of_held_eq_free hl, role_of_held_eq_free hl']
  exact .keep _ _

theorem op_setLock {j : ℕ} (r r' : Role) {b : Block.Mem} {l' : Pc M}
    (h : Op int32 (m.lock j).lockNum r b.lockNum r')
    (hl : l.role i = if j = i then r else .free) (hl' : l'.role i = if j = i then r' else .free) :
    Op int32 (m.lock i).lockNum (l.role i) ((m.setLock j b).lock i).lockNum (l'.role i) := by
  rw [hl, hl']
  by_cases hij : j = i
  · subst hij
    simpa [Channel.setLock] using h
  · simpa [Channel.setLock, hij, update_of_ne (Ne.symm hij)] using Op.keep _ _

theorem Move.op (h : Move traits conf m p l a m' p') (hl : l.Guarded conf) (i : ℕ) :
    Op int32 (m.lock i).lockNum (l.role i) (m'.lock i).lockNum (p'.pc.role i) := by
  have hfree : ∀ j, (.free : Role) = if j = i then .free else .free := fun j => (ite_self _).symm
  cases h with
  | transmit | fetchAddSeq | lockForWriteFailed | notify | listen | skip => exact op_free rfl rfl
  | lockForWrite tx j fail hj =>
    refine op_setLock .free .writer ?_ ((role_of_held_eq_free rfl).trans (hfree j)) rfl
    rw [hj]
    exact .lockWrite
  | releaseWritten tx j fail =>
    have hj : ¬conf.blockNum ≤ j := not_le.mpr hl
    rw [Channel.releaseWrittenBlock, if_neg hj]
    exact op_setLock .writer .free (.unlockWrite _) rfl ((role_of_held_eq_free rfl).trans (hfree j))
  | releaseFailed tx j fail =>
    have hj : ¬conf.blockNum ≤ j := not_le.mpr hl
    rw [Channel.releaseWrittenBlock, if_neg hj]
    exact op_setLock .writer .free (.unlockWrite _) rfl ((role_of_held_eq_free rfl).trans (hfree j))
  | lockForRead number j l l' fail b htry =>
    exact op_setLock l.role l'.role (Block.op_prog htry hl.2) rfl
      (role_ofTryLockForRead number j l')
  | releaseRead j fail =>
    have hj : ¬conf.blockNum ≤ j := not_le.mpr hl
    rw [Channel.releaseReadBlock, if_neg hj]
    exact op_setLock .reader .free (.unlockRead _) rfl ((role_of_held_eq_free rfl).trans (hfree j))
  | _ => exact .keep _ _

/-! ### The contents of the blocks -/

/-- The message of `tx` has been serialized into the buffer. -/
structure HasMsg (traits : MessageTraits M) (d : Data M) (tx : Tx M) : Prop where
  ok : (traits.serializeToArray tx.msg).1 = true
  stored : Stored d.buf 0 (traits.serializeToArray tx.msg).2

/-- The message of `tx`, its size and its `MessageInfo` have been written. -/
structure HasInfo (traits : MessageTraits M) (d : Data M) (tx : Tx M) : Prop
    extends HasMsg traits d tx where
  msgSize : d.msgSize = traits.byteSize tx.msg
  info : ∀ bs ∈ tx.info.serializeTo MessageInfo.kSize, Stored d.buf (traits.byteSize tx.msg) bs

/-- The block holds all that `tx` writes. -/
structure Complete (traits : MessageTraits M) (d : Data M) (tx : Tx M) : Prop
    extends HasInfo traits d tx where
  msgInfoSize : d.msgInfoSize = MessageInfo.kSize

variable {d : Data M} {tx : Tx M}

theorem Complete.read_msg (h : Complete traits d tx) :
    read d.buf 0 d.msgSize = (traits.serializeToArray tx.msg).2 := by
  rw [h.msgSize, ← traits.length_eq _ h.ok]
  exact h.stored

theorem Complete.deserializeFrom (h : Complete traits d tx) :
    MessageInfo.deserializeFrom d.buf d.msgSize d.msgInfoSize =
      some { tx.info with channelId := 0 } := by
  rw [h.msgInfoSize, h.msgSize]
  exact MessageInfo.deserializeFrom_of_stored rfl (h.info _ rfl)

/-- What a thread knows: what it has written into its block, which it was the last to take; for
which notification it reads; and, once it has read the `MessageInfo`, that the block holds what was
announced. -/
def Pc.Sound (traits : MessageTraits M) (m : Channel M) : Pc M → Prop
  | .idle | .nextWritable _ | .lockForWrite _ _ | .releaseRead _ => True
  | .serialize tx i => (m.data i).takenBy = some tx
  | .setMsgSize tx i => (m.data i).takenBy = some tx ∧ HasMsg traits (m.data i) tx
  | .serializeInfo tx i => (m.data i).takenBy = some tx ∧ HasMsg traits (m.data i) tx ∧
      (m.data i).msgSize = traits.byteSize tx.msg
  | .setMsgInfoSize tx i => (m.data i).takenBy = some tx ∧ HasInfo traits (m.data i) tx
  | .releaseWritten tx i true => (m.data i).takenBy = some tx ∧ Complete traits (m.data i) tx
  | .releaseWritten tx i false => (m.data i).takenBy = some tx ∧
      (traits.serializeToArray tx.msg).1 = false
  | .notify tx _ => (traits.serializeToArray tx.msg).1 = true
  | .lockForRead number i _ | .readInfo number i => ∃ tx, m.notified[number]? = some (tx, i)
  | .onMessage number i info => ∃ tx, m.notified[number]? = some (tx, i) ∧
      Complete traits (m.data i) tx ∧ info = { tx.info with channelId := 0 }

theorem Pc.Sound.mono (h : l.Sound traits m) (hnotified : m.notified <+: m'.notified)
    (hdata : l.held ≠ .free → m'.data l.index = m.data l.index) : l.Sound traits m' := by
  cases l with
  | idle | nextWritable | lockForWrite | releaseRead | notify => exact h
  | lockForRead number i l | readInfo number i =>
    obtain ⟨tx, htx⟩ := h
    exact ⟨tx, getElem?_mono hnotified htx⟩
  | onMessage number i info =>
    obtain ⟨tx, htx, hcomplete, hinfo⟩ := h
    have hd : m'.data i = m.data i := hdata (by simp [Pc.held])
    exact ⟨tx, getElem?_mono hnotified htx, hd ▸ hcomplete, hinfo⟩
  | releaseWritten tx i ok =>
    have hd : m'.data i = m.data i := hdata (by simp [Pc.held])
    cases ok <;> simpa only [Pc.Sound, hd] using h
  | serialize tx i | setMsgSize tx i | serializeInfo tx i | setMsgInfoSize tx i =>
    have hd : m'.data i = m.data i := hdata (by simp [Pc.held])
    simpa only [Pc.Sound, hd] using h

theorem data_modify_self (m : Channel M) (i : ℕ) (f : Data M → Data M) :
    (m.modify i f).data i = f (m.data i) := update_self ..

theorem data_modify_of_ne {j : ℕ} (hij : i ≠ j) (f : Data M → Data M) :
    (m.modify j f).data i = m.data i := update_of_ne hij ..

theorem data_releaseWrittenBlock : (m.releaseWrittenBlock conf i).data = m.data := by
  unfold Channel.releaseWrittenBlock
  split_ifs <;> rfl

theorem data_releaseReadBlock : (m.releaseReadBlock conf i).data = m.data := by
  unfold Channel.releaseReadBlock
  split_ifs <;> rfl

theorem notified_releaseWrittenBlock : (m.releaseWrittenBlock conf i).notified = m.notified := by
  unfold Channel.releaseWrittenBlock
  split_ifs <;> rfl

theorem notified_releaseReadBlock : (m.releaseReadBlock conf i).notified = m.notified := by
  unfold Channel.releaseReadBlock
  split_ifs <;> rfl

theorem Move.notified_cases (h : Move traits conf m p l a m' p') :
    m'.notified = m.notified ∨
      ∃ tx i, l = .notify tx i ∧ m'.notified = m.notified ++ [(tx, i)] := by
  cases h with
  | notify tx i => exact .inr ⟨tx, i, rfl, rfl⟩
  | releaseWritten | releaseFailed => exact .inl notified_releaseWrittenBlock
  | releaseRead => exact .inl notified_releaseReadBlock
  | _ => exact .inl rfl

theorem Move.notified_prefix (h : Move traits conf m p l a m' p') : m.notified <+: m'.notified := by
  rcases h.notified_cases with heq | ⟨tx, i, -, heq⟩
  · rw [heq]
  · rw [heq]
    exact prefix_append ..

theorem held_lockForRead_ne_writer {b : Block.Mem} {l : Block.Pc} {fail : Bool}
    {r : Block.Mem × Block.Pc} (h : Block.prog b l (.step fail) = some r) : l.role ≠ .writer := by
  rintro hl
  cases l <;> simp [Block.Pc.role, Block.prog] at hl h

/-- **A move and the contents of a block.** After it the thread is writing to the block; or it was
not, and has left the block alone; or it has finished writing what the block holds, or has given
up. -/
theorem Move.data_cases (h : Move traits conf m p l a m' p') (hl : l.Sound traits m) (i : ℕ) :
    p'.pc.role i = .writer ∧ (l.role i = .writer ∨ m.lock i = ⟨0⟩) ∨
    l.role i ≠ .writer ∧ m'.data i = m.data i ∨
    m'.data i = m.data i ∧ ∃ tx, (m.data i).takenBy = some tx ∧
      ((traits.serializeToArray tx.msg).1 = false ∨ Complete traits (m.data i) tx) := by
  have hother : l.index ≠ i → l.role i ≠ .writer := fun hne => by simp [role_of_index_ne hne]
  cases h with
  | lockForWrite tx j fail hj =>
    by_cases hij : i = j
    · subst hij
      exact .inl ⟨if_pos rfl, .inr hj⟩
    · exact .inr (.inl ⟨hother (Ne.symm hij), data_modify_of_ne hij _⟩)
  | serialize tx j | serializeFailed tx j | setMsgSize tx j | serializeInfo tx j
  | setMsgInfoSize tx j =>
    by_cases hij : i = j
    · subst hij
      exact .inl ⟨if_pos rfl, .inl (if_pos rfl)⟩
    · exact .inr (.inl ⟨hother (Ne.symm hij), data_modify_of_ne hij _⟩)
  | releaseWritten tx j fail =>
    rw [data_releaseWrittenBlock]
    by_cases hij : j = i
    · subst hij
      exact .inr (.inr ⟨rfl, tx, hl.1, .inr hl.2⟩)
    · exact .inr (.inl ⟨hother hij, rfl⟩)
  | releaseFailed tx j fail =>
    rw [data_releaseWrittenBlock]
    by_cases hij : j = i
    · subst hij
      exact .inr (.inr ⟨rfl, tx, hl.1, .inl hl.2⟩)
    · exact .inr (.inl ⟨hother hij, rfl⟩)
  | lockForRead number j l l' fail b htry =>
    exact .inr (.inl ⟨role_ne_writer (held_lockForRead_ne_writer htry), rfl⟩)
  | releaseRead j =>
    rw [data_releaseReadBlock]
    exact .inr (.inl ⟨role_ne_writer (by simp [Pc.held]), rfl⟩)
  | _ => exact .inr (.inl ⟨role_ne_writer (by simp [Pc.held]), rfl⟩)

/-- What the thread that moves knows afterwards, given that a dispatcher reads what was
announced. -/
theorem Move.sound (h : Move traits conf m p l a m' p') (hl : l.Sound traits m)
    (hread : ∀ r ∈ l.reads, ∃ tx, m.notified[r.1]? = some (tx, r.2) ∧
      Complete traits (m.data r.2) tx) : p'.pc.Sound traits m' := by
  cases h with
  | transmit | fetchAddSeq | lockForWriteFailed | notify | skip | readInfoFailed | deliver | drop
  | releaseFailed | releaseRead => trivial
  | lockForWrite tx i => exact congrArg Data.takenBy (data_modify_self ..)
  | serialize tx i fail hok =>
    have hstored : Stored (write (m.data i).buf 0 (traits.serializeToArray tx.msg).2) 0
        (traits.serializeToArray tx.msg).2 := stored_write
    simp only [Process.goto, Pc.Sound, data_modify_self]
    exact ⟨hl, hok, hstored⟩
  | serializeFailed tx i fail hfailed =>
    simp only [Process.goto, Pc.Sound, data_modify_self]
    exact ⟨hl, hfailed⟩
  | setMsgSize tx i =>
    simp only [Process.goto, Pc.Sound, data_modify_self]
    exact ⟨hl.1, ⟨hl.2.ok, hl.2.stored⟩, trivial⟩
  | serializeInfo tx i fail bs hbs =>
    obtain ⟨htaken, hmsg, hsize⟩ := hl
    have hle : 0 + (traits.serializeToArray tx.msg).2.length ≤ traits.byteSize tx.msg := by
      rw [zero_add]
      exact traits.length_le tx.msg
    simp only [Process.goto, Pc.Sound, data_modify_self]
    refine ⟨htaken, ⟨hmsg.ok, hmsg.stored.write_of_le hle⟩, hsize, fun bs' hbs' => ?_⟩
    obtain rfl : bs = bs' := some.inj (hbs.symm.trans hbs')
    exact stored_write
  | setMsgInfoSize tx i =>
    obtain ⟨htaken, hinfo⟩ := hl
    simp only [Process.goto, Pc.Sound, data_modify_self]
    exact ⟨htaken, ⟨⟨hinfo.ok, hinfo.stored⟩, hinfo.msgSize, hinfo.info⟩, rfl⟩
  | releaseWritten tx i => exact hl.2.ok
  | listen hasSegment tx i hnext => exact ⟨tx, hnext⟩
  | lockForRead number i l l' =>
    unfold Process.goto Pc.ofTryLockForRead
    split_ifs
    · exact hl
    · trivial
    · exact hl
  | readInfo number i fail info hinfo =>
    obtain ⟨tx, htx, hcomplete⟩ := hread (number, i) rfl
    have hinfo' : info = { tx.info with channelId := 0 } :=
      some.inj (hinfo.symm.trans hcomplete.deserializeFrom)
    exact ⟨tx, htx, hcomplete, hinfo'⟩

/-! ### Runs -/

/-- The message handed to the listeners is what the message of the announced call is parsed to, with
the `MessageInfo` of the call. -/
def Authentic (traits : MessageTraits M) (m : Channel M) (d : Delivery M) : Prop :=
  ∃ tx i, m.notified[d.number]? = some (tx, i) ∧ (traits.serializeToArray tx.msg).1 = true ∧
    traits.parseFromArray (traits.serializeToArray tx.msg).2 = some d.msg ∧
    d.info = { tx.info with channelId := 0 }

theorem Authentic.mono {d : Delivery M} (h : Authentic traits m d)
    (hnotified : m.notified <+: m'.notified) : Authentic traits m' d := by
  obtain ⟨tx, i, htx, hrest⟩ := h
  exact ⟨tx, i, getElem?_mono hnotified htx, hrest⟩

theorem Move.authentic (h : Move traits conf m p l a m' p') (hl : l.Sound traits m)
    (hp : ∀ d ∈ p.delivered, Authentic traits m d) : ∀ d ∈ p'.delivered, Authentic traits m' d := by
  have hmono := fun d hd => (hp d hd).mono h.notified_prefix
  cases h with
  | deliver number i fail info msg hmsg =>
    obtain ⟨tx, htx, hcomplete, hinfo⟩ := hl
    intro d hd
    rcases mem_append.mp hd with hd | hd
    · exact hmono d hd
    · obtain rfl := mem_singleton.mp hd
      exact ⟨tx, i, htx, hcomplete.ok, hcomplete.read_msg ▸ hmsg, hinfo⟩
  | _ => exact hmono

theorem Move.ok_notified (h : Move traits conf m p l a m' p') (hl : l.Sound traits m)
    (hm : ∀ r ∈ m.notified, (traits.serializeToArray r.1.msg).1 = true) :
    ∀ r ∈ m'.notified, (traits.serializeToArray r.1.msg).1 = true := by
  rcases h.notified_cases with heq | ⟨tx, i, rfl, heq⟩
  · rwa [heq]
  · intro r hr
    rw [heq] at hr
    rcases mem_append.mp hr with hr | hr
    · exact hm r hr
    · obtain rfl := mem_singleton.mp hr
      exact hl

/-- The invariant of runs with current reads. -/
structure Inv (traits : MessageTraits M) (conf : ShmConf) (s : State M) : Prop where
  guarded : ∀ t, (s.pc t).pc.Guarded conf
  locks : ∀ i, CountedLock.Sound (s.mem.lock i).lockNum fun t => (s.pc t).pc.role i
  threads : ∀ t, (s.pc t).pc.Sound traits s.mem
  blocks : ∀ i tx, (s.mem.data i).takenBy = some tx → (∃ t, (s.pc t).pc.role i = .writer) ∨
    (traits.serializeToArray tx.msg).1 = false ∨ Complete traits (s.mem.data i) tx
  notified : ∀ r ∈ s.mem.notified, (traits.serializeToArray r.1.msg).1 = true
  delivered : ∀ t, ∀ d ∈ (s.pc t).delivered, Authentic traits s.mem d

theorem inv_init : Inv traits conf (init M) where
  guarded _ := trivial
  locks i := by
    have hfree : (fun t => ((init M).pc t).pc.role i) = fun _ => .free :=
      funext fun _ => role_of_held_eq_free rfl
    rw [hfree]
    exact sound_free
  threads _ := trivial
  blocks i tx h := by cases h
  notified r h := by cases h
  delivered t d h := by cases h

variable {s s' : State M} {t : Tid}

/-- A thread that holds a block keeps it as it is while another thread moves. -/
theorem Inv.data_eq (h : Inv traits conf s)
    (hmove : Move traits conf s.mem (s.pc t) (s.pc t).pc a m' p')
    {u : Tid} (hut : u ≠ t) (hu : (s.pc u).pc.role i ≠ .free) : m'.data i = s.mem.data i := by
  rcases hmove.data_cases (h.threads t) i with ⟨-, hwriter | hfree⟩ | ⟨-, heq⟩ | ⟨heq, -⟩
  · exact absurd ((h.locks i).eq_of_writer hwriter hu) hut
  · have hlock := h.locks i
    rw [hfree] at hlock
    exact absurd (hlock.eq_free u) hu
  · exact heq
  · exact heq

/-- A dispatcher that reads while the last `Transmit` to take the block is the announced one finds
all that this `Transmit` has written. -/
theorem Inv.complete (h : Inv traits conf s)
    (hmove : Move traits conf s.mem (s.pc t) (s.pc t).pc a m' p') (hC : Current s (t, a)) :
    ∀ r ∈ (s.pc t).pc.reads, ∃ tx, s.mem.notified[r.1]? = some (tx, r.2) ∧
      Complete traits (s.mem.data r.2) tx := by
  intro r hr
  have hsound := h.threads t
  cases hpc : (s.pc t).pc with
  | readInfo number i =>
    have hreader : (s.pc t).pc.role i = .reader := by
      rw [hpc]
      exact if_pos rfl
    obtain ⟨fail, rfl⟩ : ∃ fail, a = .step fail := by
      rw [hpc] at hmove
      cases hmove <;> exact ⟨_, rfl⟩
    have hcurrent := hC r hr
    rw [hpc] at hr hsound
    obtain rfl := some.inj hr
    obtain ⟨tx, htx⟩ := hsound
    rw [htx] at hcurrent
    refine ⟨tx, htx, ?_⟩
    rcases h.blocks i tx hcurrent with ⟨u, hu⟩ | hfailed | hcomplete
    · -- a writer would exclude the dispatcher
      obtain rfl : t = u := (h.locks i).eq_of_writer hu (by simp [hreader])
      simp [hreader] at hu
    · have hok := h.notified _ (mem_of_getElem? htx)
      simp [hfailed] at hok
    · exact hcomplete
  | _ =>
    rw [hpc] at hr
    cases hr

/-- **A step with a current read keeps the invariant.** -/
theorem Inv.step {e : Tid × Act M} (hpos : 0 < conf.blockNum) (h : Inv traits conf s)
    (hC : Current s e) (hstep : Threads.step (prog traits conf) s e = some s') :
    Inv traits conf s' := by
  obtain ⟨t, a⟩ := e
  obtain ⟨m', p', hact, rfl⟩ := Threads.step_eq_some.mp hstep
  have hmove := move_of_act hact
  refine ⟨?_, ?_, ?_, ?_, ?_, ?_⟩
  · intro u
    by_cases hu : u = t
    · subst hu
      simpa using hmove.guarded hpos (h.guarded u)
    · simpa [hu] using h.guarded u
  · intro i
    have hsound := (hmove.op (h.guarded t) i).sound card_tid int32_of_le (h.locks i)
    have hrole : (fun u => (update s.pc t p' u).pc.role i) =
        update (fun u => (s.pc u).pc.role i) t (p'.pc.role i) :=
      comp_update (fun p : Process M => p.pc.role i) s.pc t p'
    rwa [hrole]
  · intro u
    by_cases hu : u = t
    · subst hu
      simpa using hmove.sound (h.threads u) (h.complete hmove hC)
    · simp only [update_of_ne hu]
      refine (h.threads u).mono hmove.notified_prefix fun hheld => h.data_eq hmove hu ?_
      exact (if_pos rfl).trans_ne hheld
  · intro i tx htx
    rcases hmove.data_cases (h.threads t) i with
      ⟨hwriter, -⟩ | ⟨hother, heq⟩ | ⟨heq, tx', htx', hdone⟩
    · exact .inl ⟨t, by simpa using hwriter⟩
    · simp only [heq] at htx ⊢
      rcases h.blocks i tx htx with ⟨u, hu⟩ | hdone
      · have hut : u ≠ t := by
          rintro rfl
          exact hother hu
        exact .inl ⟨u, by simpa [hut] using hu⟩
      · exact .inr hdone
    · simp only [heq] at htx ⊢
      obtain rfl : tx' = tx := some.inj (htx'.symm.trans htx)
      exact .inr hdone
  · exact hmove.ok_notified (h.threads t) h.notified
  · intro u
    by_cases hu : u = t
    · subst hu
      simpa using hmove.authentic (h.threads u) (h.delivered u)
    · simp only [update_of_ne hu]
      exact fun d hd => (h.delivered u d hd).mono hmove.notified_prefix

end Cyber.ShmChannel
