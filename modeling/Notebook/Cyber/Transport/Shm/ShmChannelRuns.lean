import Notebook.Cyber.Transport.Shm.ShmChannelBlocks

/-!
# What a channel over shared memory delivers

Every call of `Transmit` sends at most one notification, and a dispatcher hands at most one message
to the listeners for each notification, in their order. A dispatcher that comes so late that another
`Transmit` has taken the block delivers what it finds there.

## Main definitions

* `Numbered`, `Ordered` — the calls and the deliveries are those of the notifications.
* `Transmitted` — a channel on which `k` messages have been transmitted.

## Main results

* `delivers_announced` — when no block is taken before it is read, what the listeners get is what
  was announced.
* `exec_transmits` — any number of messages can be transmitted.
* `delivers_rewritten` — a dispatcher that is `512` messages late delivers the last one.
-/

open Interleaving CountedLock ByteMemory Function List Option Threads

namespace Cyber.ShmChannel

variable {M : Type*} {traits : MessageTraits M} {conf : ShmConf} {m m' : Channel M}
  {p p' : Process M}
  {l : Pc M} {a : Act M} {i : ℕ} {d : Data M} {tx : Tx M} {s s' : State M} {t : Tid}

/-! ### The calls and the order of the deliveries -/

/-- The call of `Transmit` that a thread is in. -/
def Pc.call : Pc M → Option (Tx M)
  | .nextWritable tx | .lockForWrite tx _ | .serialize tx _ | .setMsgSize tx _ | .serializeInfo tx _
  | .setMsgInfoSize tx _ | .releaseWritten tx _ _ | .notify tx _ => some tx
  | _ => none

/-- The number of the notification that a thread reads for. -/
def Pc.number : Pc M → Option ℕ
  | .lockForRead number _ _ | .readInfo number _ | .onMessage number _ _ => some number
  | _ => none

/-- The calls under way and those that have sent a notification are all different, and were made
with the channel id `0`. -/
structure Numbered (s : State M) : Prop where
  pending : ∀ t tx, (s.pc t).pc.call = some tx → tx.id < s.mem.calls ∧ tx.info.channelId = 0
  distinct : ∀ t u tx tx', (s.pc t).pc.call = some tx → (s.pc u).pc.call = some tx' →
    tx.id = tx'.id → t = u
  sent : ∀ r ∈ s.mem.notified, r.1.id < s.mem.calls ∧ r.1.info.channelId = 0 ∧
    ∀ t tx, (s.pc t).pc.call = some tx → tx.id ≠ r.1.id
  nodup : (s.mem.notified.map fun r => r.1.id).Nodup

theorem numbered_init : Numbered (init M) where
  pending t tx h := by cases h
  distinct t u tx tx' h := by cases h
  sent r h := by cases h
  nodup := .nil

theorem Move.calls_cases (h : Move traits conf m p l a m' p') :
    (m'.notified = m.notified ∧ m'.calls = m.calls ∧ (p'.pc.call = l.call ∨ p'.pc.call = none)) ∨
    (∃ msg info, a = .transmit msg info ∧ m'.notified = m.notified ∧ m'.calls = m.calls + 1 ∧
      p'.pc.call = some ⟨m.calls, msg, info⟩) ∨
    ∃ tx i, l.call = some tx ∧ m'.notified = m.notified ++ [(tx, i)] ∧ m'.calls = m.calls ∧
      p'.pc.call = none := by
  cases h with
  | transmit msg info => exact .inr (.inl ⟨msg, info, rfl, rfl, rfl, rfl⟩)
  | notify tx i => exact .inr (.inr ⟨tx, i, rfl, rfl, rfl, rfl⟩)
  | lockForRead number i l l' =>
    refine .inl ⟨rfl, rfl, .inr ?_⟩
    unfold Process.goto Pc.ofTryLockForRead
    split_ifs <;> rfl
  | releaseWritten =>
    refine .inl ⟨notified_releaseWrittenBlock, ?_, .inl rfl⟩
    unfold Channel.releaseWrittenBlock
    split_ifs <;> rfl
  | releaseFailed =>
    refine .inl ⟨notified_releaseWrittenBlock, ?_, .inr rfl⟩
    unfold Channel.releaseWrittenBlock
    split_ifs <;> rfl
  | releaseRead =>
    refine .inl ⟨notified_releaseReadBlock, ?_, .inl rfl⟩
    unfold Channel.releaseReadBlock
    split_ifs <;> rfl
  | _ => exact .inl ⟨rfl, rfl, .inl rfl⟩

theorem call_update {u : Tid} (hu : (update s.pc t p' u).pc.call = some tx) :
    u = t ∧ p'.pc.call = some tx ∨ u ≠ t ∧ (s.pc u).pc.call = some tx := by
  by_cases hut : u = t
  · subst hut
    exact .inl ⟨rfl, by simpa using hu⟩
  · exact .inr ⟨hut, by simpa [hut] using hu⟩

theorem Numbered.mono (h : Numbered s) (hcalls : s'.mem.calls = s.mem.calls)
    (hnotified : s'.mem.notified = s.mem.notified)
    (hold : ∀ u tx, (s'.pc u).pc.call = some tx → (s.pc u).pc.call = some tx) : Numbered s' := by
  refine ⟨?_, ?_, ?_, ?_⟩
  · intro u tx hu
    rw [hcalls]
    exact h.pending u tx (hold u tx hu)
  · intro u v tx tx' hu hv
    exact h.distinct u v tx tx' (hold u tx hu) (hold v tx' hv)
  · rw [hnotified, hcalls]
    intro r hr
    obtain ⟨hlt, hzero, hne⟩ := h.sent r hr
    exact ⟨hlt, hzero, fun u tx hu => hne u tx (hold u tx hu)⟩
  · rw [hnotified]
    exact h.nodup

/-- A call of `Transmit` takes the next number. -/
theorem Numbered.transmit {msg : M} {info : MessageInfo} (h : Numbered s)
    (hinfo : info.channelId = 0) (hnotified : m'.notified = s.mem.notified)
    (hcalls : m'.calls = s.mem.calls + 1) (hp' : p'.pc.call = some ⟨s.mem.calls, msg, info⟩) :
    Numbered (⟨m', update s.pc t p'⟩ : State M) := by
  have hlt : ∀ u tx, (s.pc u).pc.call = some tx → tx.id < s.mem.calls := fun u tx hu =>
    (h.pending u tx hu).1
  refine ⟨?_, ?_, ?_, ?_⟩
  · intro u tx hu
    rw [hcalls]
    rcases call_update hu with ⟨-, hnew⟩ | ⟨-, hu⟩
    · obtain rfl := some.inj (hp'.symm.trans hnew)
      exact ⟨Nat.lt_succ_self _, hinfo⟩
    · obtain ⟨hlt, hzero⟩ := h.pending u tx hu
      exact ⟨Nat.lt_succ_of_lt hlt, hzero⟩
  · intro u v tx tx' hu hv hid
    rcases call_update hu with ⟨hut, hnew⟩ | ⟨-, hu⟩ <;>
      rcases call_update hv with ⟨hvt, hnew'⟩ | ⟨-, hv⟩
    · exact hut.trans hvt.symm
    · obtain rfl := some.inj (hp'.symm.trans hnew)
      exact absurd hid (hlt v tx' hv).ne'
    · obtain rfl := some.inj (hp'.symm.trans hnew')
      exact absurd hid (hlt u tx hu).ne
    · exact h.distinct u v tx tx' hu hv hid
  · intro r hr
    rw [hnotified] at hr
    obtain ⟨hlt, hzero, hne⟩ := h.sent r hr
    rw [hcalls]
    refine ⟨Nat.lt_succ_of_lt hlt, hzero, fun u tx hu => ?_⟩
    rcases call_update hu with ⟨-, hnew⟩ | ⟨-, hu⟩
    · obtain rfl := some.inj (hp'.symm.trans hnew)
      exact hlt.ne'
    · exact hne u tx hu
  · rw [hnotified]
    exact h.nodup

/-- A call sends its notification and ends. -/
theorem Numbered.notify (h : Numbered s) (ht : (s.pc t).pc.call = some tx)
    (hnotified : m'.notified = s.mem.notified ++ [(tx, i)]) (hcalls : m'.calls = s.mem.calls)
    (hp' : p'.pc.call = none) : Numbered (⟨m', update s.pc t p'⟩ : State M) := by
  have hold : ∀ u tx', (update s.pc t p' u).pc.call = some tx' →
      u ≠ t ∧ (s.pc u).pc.call = some tx' := by
    intro u tx' hu
    rcases call_update hu with ⟨-, hnew⟩ | hu
    · simp [hp'] at hnew
    · exact hu
  refine ⟨?_, ?_, ?_, ?_⟩
  · intro u tx' hu
    rw [hcalls]
    exact h.pending u tx' (hold u tx' hu).2
  · intro u v tx' tx'' hu hv
    exact h.distinct u v tx' tx'' (hold u tx' hu).2 (hold v tx'' hv).2
  · intro r hr
    rw [hnotified] at hr
    rw [hcalls]
    rcases mem_append.mp hr with hr | hr
    · obtain ⟨hlt, hzero, hne⟩ := h.sent r hr
      exact ⟨hlt, hzero, fun u tx' hu => hne u tx' (hold u tx' hu).2⟩
    · obtain rfl := mem_singleton.mp hr
      obtain ⟨hlt, hzero⟩ := h.pending t tx ht
      refine ⟨hlt, hzero, fun u tx' hu hid => ?_⟩
      obtain ⟨hut, hu⟩ := hold u tx' hu
      exact hut (h.distinct u t tx' tx hu ht hid)
  · rw [hnotified, map_append]
    refine h.nodup.append (nodup_singleton _) ?_
    rw [map_singleton, disjoint_singleton]
    intro hmem
    obtain ⟨r, hr, hid⟩ := mem_map.mp hmem
    exact (h.sent r hr).2.2 t tx ht hid.symm

theorem Numbered.step {e : Tid × Act M} (h : Numbered s) (hC : Current s e)
    (hstep : Threads.step (prog traits conf) s e = some s') : Numbered s' := by
  obtain ⟨t, a⟩ := e
  obtain ⟨m', p', hact, rfl⟩ := step_eq_some.mp hstep
  rcases (move_of_act hact).calls_cases with ⟨hnotified, hcalls, htx⟩ |
    ⟨msg, info, rfl, hnotified, hcalls, htx⟩ | ⟨tx, i, ht, hnotified, hcalls, htx⟩
  · refine h.mono hcalls hnotified fun u tx hu => ?_
    rcases call_update hu with ⟨rfl, hnew⟩ | ⟨-, hu⟩
    · rcases htx with heq | hnone
      · exact heq ▸ hnew
      · simp [hnone] at hnew
    · exact hu
  · exact h.transmit hC hnotified hcalls htx
  · exact h.notify ht hnotified hcalls htx

/-- The deliveries of a dispatcher are in the order of the notifications, and those made so far come
before the notification that it reads for. -/
structure Ordered (p : Process M) (l : Pc M) : Prop where
  increasing : p.delivered.Pairwise fun d d' => d.number < d'.number
  taken : ∀ d ∈ p.delivered, d.number < p.next
  reading : ∀ n, l.number = some n → n < p.next ∧ ∀ d ∈ p.delivered, d.number < n

theorem Ordered.goto (h : Ordered p l) {l' : Pc M} (hl' : l'.number = l.number ∨ l'.number = none) :
    Ordered (p.goto l') l' := by
  refine ⟨h.increasing, h.taken, fun n hn => ?_⟩
  rcases hl' with heq | hnone
  · exact h.reading n (heq ▸ hn)
  · rw [hnone] at hn
    cases hn

theorem Move.ordered (h : Move traits conf m p l a m' p') (hp : Ordered p l) :
    Ordered p' p'.pc := by
  cases h with
  | listen hasSegment tx i =>
    refine ⟨hp.increasing, fun d hd => Nat.lt_succ_of_lt (hp.taken d hd), ?_⟩
    rintro n ⟨⟩
    exact ⟨Nat.lt_succ_self _, hp.taken⟩
  | skip =>
    refine ⟨hp.increasing, fun d hd => Nat.lt_succ_of_lt (hp.taken d hd), ?_⟩
    rintro n ⟨⟩
  | lockForRead number i l l' =>
    refine hp.goto ?_
    unfold Pc.ofTryLockForRead
    split_ifs
    · exact .inl rfl
    · exact .inr rfl
    · exact .inl rfl
  | deliver number i fail info msg =>
    obtain ⟨hnext, hlast⟩ := hp.reading number rfl
    refine ⟨?_, ?_, ?_⟩
    · refine pairwise_append.mpr ⟨hp.increasing, pairwise_singleton .., ?_⟩
      intro d hd d' hd'
      obtain rfl := mem_singleton.mp hd'
      exact hlast d hd
    · intro d hd
      rcases mem_append.mp hd with hd | hd
      · exact hp.taken d hd
      · obtain rfl := mem_singleton.mp hd
        exact hnext
    · rintro n ⟨⟩
  | readInfo => exact hp.goto (.inl rfl)
  | _ => exact hp.goto (.inr rfl)

/-- **What the listeners get.** When every dispatcher reads a block that nobody has taken since it
was announced, then what it hands to the listeners for a notification is the message and the
`MessageInfo` of the `Transmit` that has sent the notification, and this `Transmit` was successful.
No notification is delivered twice, and no `Transmit` sends two. -/
theorem delivers_announced {n : ℕ} {es : List (Tid × Act M)}
    (hrun : exec (step traits n) (init M) es = some s)
    (hC : AllSteps (step traits n) Current (init M) es) (t : Tid) :
    (∀ d ∈ (s.pc t).delivered, ∃ tx i, s.mem.notified[d.number]? = some (tx, i) ∧
      (traits.serializeToArray tx.msg).1 = true ∧
      traits.parseFromArray (traits.serializeToArray tx.msg).2 = some d.msg ∧
      (traits.RoundTrip → d.msg = tx.msg) ∧ d.info = tx.info) ∧
    ((s.pc t).delivered.Pairwise fun d d' => d.number < d'.number) ∧
    (s.mem.notified.map fun r => r.1.id).Nodup := by
  have hinv : Inv traits (.update n) s := exec_invariant_of_allSteps (Inv traits (.update n))
    (fun _ _ _ h hC hstep => h.step (ShmConf.blockNum_update_pos n) hC hstep) inv_init hC hrun
  have hnumbered : Numbered s := exec_invariant_of_allSteps Numbered
    (fun _ _ _ h hC hstep => h.step hC hstep) numbered_init hC hrun
  have hordered : Ordered (s.pc t) (s.pc t).pc := by
    refine exec_invariant (fun s => ∀ t, Ordered (s.pc t) (s.pc t).pc) ?_ ?_ hrun t
    · rintro s ⟨u, a⟩ s' h hstep
      exact forall_pc_step hstep h fun m p hact => (move_of_act hact).ordered (h u)
    · exact fun _ => ⟨.nil, nofun, nofun⟩
  refine ⟨fun d hd => ?_, hordered.increasing, hnumbered.nodup⟩
  obtain ⟨tx, i, htx, hok, hparse, hinfo⟩ := hinv.delivered t d hd
  have hzero : tx.info.channelId = 0 := (hnumbered.sent _ (mem_of_getElem? htx)).2.1
  refine ⟨tx, i, htx, hok, hparse, fun hround => hround _ _ hok hparse, ?_⟩
  rw [hinfo, ← hzero]

/-! ### Whole calls -/

/-- A `Transmit` without interruption. -/
def transmitActs (msg : M) (info : MessageInfo) : List (Act M) :=
  .transmit msg info :: List.replicate 8 (.step false)

/-- A `ReadMessage` without interruption. -/
def readActs : List (Act M) := .listen true :: List.replicate 5 (.step false)

/-- A block after a successful `Transmit`. -/
def Data.written (traits : MessageTraits M) (tx : Tx M) (d : Data M) : Data M where
  msgSize := traits.byteSize tx.msg
  msgInfoSize := MessageInfo.kSize
  buf := write (write d.buf 0 (traits.serializeToArray tx.msg).2) (traits.byteSize tx.msg)
    ((tx.info.serializeTo MessageInfo.kSize).getD [])
  takenBy := some tx

theorem complete_written (hok : (traits.serializeToArray tx.msg).1 = true) :
    Complete traits (d.written traits tx) tx where
  ok := hok
  stored := stored_write.write_of_le (by simpa using traits.length_le tx.msg)
  msgSize := rfl
  info bs hbs := by
    rw [Data.written, mem_def.mp hbs]
    exact stored_write
  msgInfoSize := rfl

theorem modify_modify (f g : Data M → Data M) :
    (m.modify i f).modify i g = m.modify i fun d => g (f d) := by
  simp [Channel.modify]

theorem act_lockForWrite (hfree : m.lock i = ⟨0⟩) :
    act traits conf m p (.lockForWrite tx i) (.step false) = some
      ((m.setLock i ⟨-1⟩).modify i fun d => { d with takenBy := some tx },
        p.goto (.serialize tx i)) := by
  simp [act, Block.prog, hfree, Block.kRWLockFree, Block.kWriteExclusive]

theorem releaseWrittenBlock_of_lt {f : Data M → Data M} (hi : i < conf.blockNum) :
    ((m.setLock i ⟨-1⟩).modify i f).releaseWrittenBlock conf i = (m.setLock i ⟨0⟩).modify i f := by
  have hlock : int32 0 = 0 := rfl
  rw [Channel.releaseWrittenBlock, if_neg (not_le.mpr hi)]
  simp [Channel.setLock, Channel.modify, hlock]

theorem exec_write (m : Channel M) (p : Process M) (tx : Tx M) (hi : i < conf.blockNum)
    (hok : (traits.serializeToArray tx.msg).1 = true) :
    exec (fun r a => prog traits conf r.1 r.2 a)
        ((m.setLock i ⟨-1⟩).modify i fun d => { d with takenBy := some tx },
          p.goto (.serialize tx i))
        (List.replicate 6 (.step false)) = some
      ({ (m.setLock i ⟨0⟩).modify i (Data.written traits tx) with
          notified := m.notified ++ [(tx, i)] }, p.goto .idle) := by
  have hserialize (m : Channel M) :
      prog traits conf m (p.goto (.serialize tx i)) (.step false) = some
      (m.modify i fun d => { d with buf := write d.buf 0 (traits.serializeToArray tx.msg).2 },
        p.goto (.setMsgSize tx i)) := by
    simp only [prog, act, Process.goto, hok, if_true]
  refine exec_cons_eq_some.mpr ⟨_, hserialize _, exec_cons_eq_some.mpr ⟨_, rfl,
    exec_cons_eq_some.mpr ⟨_, rfl, exec_cons_eq_some.mpr ⟨_, rfl, exec_cons_eq_some.mpr ⟨_, rfl,
      exec_cons_eq_some.mpr ⟨_, rfl, ?_⟩⟩⟩⟩⟩⟩
  simp only [modify_modify, releaseWrittenBlock_of_lt hi]
  rfl

/-- The channel after a successful `Transmit`. -/
def Channel.transmitted (traits : MessageTraits M) (conf : ShmConf) (m : Channel M) (msg : M)
    (info : MessageInfo) : Channel M :=
  let tx : Tx M := ⟨m.calls, msg, info⟩
  let i := m.seq % conf.blockNum
  { m with
    seq := uint32 (m.seq + 1)
    data := update m.data i ((m.data i).written traits tx)
    calls := m.calls + 1
    notified := m.notified ++ [(tx, i)] }

/-- A `Transmit` that runs alone takes the next block, if it is free, and announces it. -/
theorem exec_transmit {msg : M} (info : MessageInfo) (hp : p.pc = .idle)
    (hfree : m.lock (m.seq % conf.blockNum) = ⟨0⟩) (hpos : 0 < conf.blockNum)
    (hsize : traits.byteSize msg ≤ conf.ceilingMsgSize)
    (hok : (traits.serializeToArray msg).1 = true) :
    exec (fun r a => prog traits conf r.1 r.2 a) (m, p) (transmitActs msg info) =
      some (m.transmitted traits conf msg info, p) := by
  have hcall : prog traits conf m p (.transmit msg info) =
      some ({ m with calls := m.calls + 1 }, p.goto (.nextWritable ⟨m.calls, msg, info⟩)) := by
    rw [prog, hp]
    exact if_neg (not_lt.mpr hsize)
  have hwrite := exec_write { m with seq := uint32 (m.seq + 1), calls := m.calls + 1 } p
    ⟨m.calls, msg, info⟩ (Nat.mod_lt m.seq hpos) hok
  have hlock : update m.lock (m.seq % conf.blockNum) ⟨0⟩ = m.lock := by
    rw [← hfree, update_eq_self]
  have hidle : p.goto .idle = p := by rw [Process.goto, ← hp]
  refine exec_cons_eq_some.mpr ⟨_, hcall, exec_cons_eq_some.mpr ⟨_, rfl, exec_cons_eq_some.mpr
    ⟨_, act_lockForWrite hfree, hwrite.trans ?_⟩⟩⟩
  simp [Channel.transmitted, Channel.setLock, Channel.modify, hlock, hidle]

theorem act_lockForRead {number : ℕ} {l l' : Block.Pc} {b : Block.Mem}
    (h : Block.prog (m.lock i) l (.step false) = some (b, l')) :
    act traits conf m p (.lockForRead number i l) (.step false) =
      some (m.setLock i b, p.goto (.ofTryLockForRead number i l')) := by
  rw [act, h, map_some]

theorem exec_lockForRead (p : Process M) (number : ℕ) (hfree : m.lock i = ⟨0⟩) :
    exec (fun r a => prog traits conf r.1 r.2 a) (m, p.goto (.lockForRead number i .readLoad))
      (List.replicate 2 (.step false)) = some (m.setLock i ⟨1⟩, p.goto (.readInfo number i)) := by
  have hload : Block.prog (m.lock i) .readLoad (.step false) = some (m.lock i, .readCas 0 0) := by
    rw [hfree]
    rfl
  have hexchange : Block.prog (m.lock i) (.readCas 0 0) (.step false) = some (⟨1⟩, .reading) := by
    rw [hfree]
    rfl
  have hloaded : prog traits conf m (p.goto (.lockForRead number i .readLoad)) (.step false) =
      some (m, p.goto (.lockForRead number i (.readCas 0 0))) := by
    refine (act_lockForRead hload).trans ?_
    rw [setLock_self]
    rfl
  exact exec_cons_eq_some.mpr
    ⟨_, hloaded, exec_cons_eq_some.mpr ⟨_, act_lockForRead hexchange, rfl⟩⟩

theorem releaseReadBlock_of_lt (hi : i < conf.blockNum) (hfree : m.lock i = ⟨0⟩) :
    (m.setLock i ⟨1⟩).releaseReadBlock conf i = m := by
  have hlock : int32 0 = 0 := rfl
  rw [Channel.releaseReadBlock, if_neg (not_le.mpr hi)]
  simp [Channel.setLock, hlock, ← hfree]

/-- A `ReadMessage` that runs alone hands the message in the block to the listeners. -/
theorem exec_read {tx' : Tx M} {msg : M} (hp : p.pc = .idle)
    (hnext : m.notified[p.next]? = some (tx', i))
    (hi : i < conf.blockNum) (hfree : m.lock i = ⟨0⟩) (hcomplete : Complete traits (m.data i) tx)
    (hmsg : traits.parseFromArray (traits.serializeToArray tx.msg).2 = some msg) :
    exec (fun r a => prog traits conf r.1 r.2 a) (m, p) readActs = some
      (m, { p with
        next := p.next + 1
        delivered := p.delivered ++ [⟨p.next, msg, { tx.info with channelId := 0 }⟩] }) := by
  have hlisten : prog traits conf m p (.listen true) = some (m, ({ p with next := p.next + 1 } :
      Process M).goto (.lockForRead p.next i .readLoad)) := by
    rw [prog, hp]
    simp [act, hnext, hi, Process.goto]
  have hinfo : MessageInfo.deserializeFrom ((m.setLock i ⟨1⟩).data i).buf
      ((m.setLock i ⟨1⟩).data i).msgSize ((m.setLock i ⟨1⟩).data i).msgInfoSize =
      some { tx.info with channelId := 0 } := hcomplete.deserializeFrom
  have hparse : traits.parseFromArray (read ((m.setLock i ⟨1⟩).data i).buf 0
      ((m.setLock i ⟨1⟩).data i).msgSize) = some msg := hcomplete.read_msg ▸ hmsg
  have hreadInfo (p : Process M) (number : ℕ) : act traits conf (m.setLock i ⟨1⟩) p
      (.readInfo number i) (.step false) = some (m.setLock i ⟨1⟩,
        p.goto (.onMessage number i { tx.info with channelId := 0 })) := by
    rw [act, hinfo]
  have honMessage (p : Process M) (number : ℕ) (info : MessageInfo) :
      act traits conf (m.setLock i ⟨1⟩) p (.onMessage number i info) (.step false) =
        some (m.setLock i ⟨1⟩, { p with
          pc := .releaseRead i, delivered := p.delivered ++ [⟨number, msg, info⟩] }) := by
    rw [act, hparse]
    rfl
  refine exec_cons_eq_some.mpr ⟨_, hlisten, exec_append_eq_some.mpr
    ⟨_, exec_lockForRead _ _ hfree, exec_cons_eq_some.mpr ⟨_, hreadInfo _ _, exec_cons_eq_some.mpr
      ⟨_, honMessage _ _ _, exec_cons_eq_some.mpr ⟨_, rfl, ?_⟩⟩⟩⟩⟩
  rw [releaseReadBlock_of_lt hi hfree, hp]
  rfl

/-! ### A late dispatcher -/

/-- The message with the number `k`. -/
def message (k : ℕ) : RawMessage := { message := toBytes 2 k }

/-- The `MessageInfo` with the number `k`. -/
def messageInfo (k : ℕ) : MessageInfo := { seqNum := .ofNat k }

/-- A thread transmits the messages with the numbers below `k`. -/
def transmits : ℕ → List (Tid × Act RawMessage)
  | 0 => []
  | k + 1 => transmits k ++ (transmitActs (message k) (messageInfo k)).map (0, ·)

/-- The operations on a segment for small messages, which has `512` blocks. -/
abbrev smallStep : State RawMessage → Tid × Act RawMessage → Option (State RawMessage) :=
  step RawMessage.traits ShmConf.messageSize16K

theorem blockNum_messageSize16K : (ShmConf.update ShmConf.messageSize16K).blockNum = 512 := by
  decide

/-- A channel on which `k` messages have been transmitted, with nobody using it. -/
structure Transmitted (k : ℕ) (m : Channel RawMessage) : Prop where
  seq : m.seq = k
  calls : m.calls = k
  lock : ∀ i, m.lock i = ⟨0⟩
  notified : m.notified = (List.range k).map fun j => (⟨j, message j, messageInfo j⟩, j % 512)
  last : ∀ j, k = j + 1 →
    Complete RawMessage.traits (m.data (j % 512)) ⟨j, message j, messageInfo j⟩

/-- The next message. -/
def transmitNext (k : ℕ) (m : Channel RawMessage) : Channel RawMessage :=
  m.transmitted RawMessage.traits (.update ShmConf.messageSize16K) (message k) (messageInfo k)

theorem exec_transmitNext {k : ℕ} {m : Channel RawMessage} (h : Transmitted k m) :
    exec smallStep ⟨m, fun _ => {}⟩ ((transmitActs (message k) (messageInfo k)).map (0, ·)) =
      some ⟨transmitNext k m, fun _ => {}⟩ := by
  have hsize : RawMessage.traits.byteSize (message k) ≤
      (ShmConf.update ShmConf.messageSize16K).ceilingMsgSize := by
    have hlen : RawMessage.traits.byteSize (message k) = 2 := length_toBytes 2 k
    rw [hlen]
    decide
  have hlocal := exec_alone (s := ⟨m, fun _ => {}⟩) (t := (0 : Tid))
    (exec_transmit (messageInfo k) rfl (h.lock _) (ShmConf.blockNum_update_pos _) hsize rfl)
  rwa [update_eq_self] at hlocal

theorem Transmitted.next {k : ℕ} {m : Channel RawMessage} (h : Transmitted k m)
    (hk : k + 1 < 2 ^ 32) :
    Transmitted (k + 1) (transmitNext k m) where
  seq := (congrArg (fun n => uint32 (n + 1)) h.seq).trans (uint32_eq_self hk)
  calls := congrArg (· + 1) h.calls
  lock := h.lock
  notified := by
    simp only [transmitNext, Channel.transmitted, h.notified, h.calls, h.seq,
      blockNum_messageSize16K, range_succ, map_append, map_singleton]
  last j hj := by
    obtain rfl : k = j := Nat.succ.inj hj
    simp only [transmitNext, Channel.transmitted, h.calls, h.seq, blockNum_messageSize16K,
      update_self]
    exact complete_written rfl

/-- The messages with the numbers below `k` can be transmitted one after the other. -/
theorem exec_transmits (k : ℕ) (hk : k < 2 ^ 32) :
    ∃ m, exec smallStep (init RawMessage) (transmits k) = some ⟨m, fun _ => {}⟩ ∧
      Transmitted k m := by
  induction k with
  | zero => exact ⟨{}, rfl, rfl, rfl, fun _ => rfl, rfl, fun j hj => by omega⟩
  | succ k ih =>
    obtain ⟨m, hrun, h⟩ := ih (by omega)
    exact ⟨_, exec_append_eq_some.mpr ⟨_, hrun, exec_transmitNext h⟩, h.next hk⟩

/-- **A late dispatcher.** When the first notification is read after `513` messages, the index
has come round: the block of the first message holds the last one, and this is what the
listeners get. -/
theorem delivers_rewritten :
    ∃ s, exec smallStep (init RawMessage) (transmits 513 ++ readActs.map (1, ·)) = some s ∧
      s.mem.notified[0]? = some (⟨0, message 0, messageInfo 0⟩, 0) ∧
      (s.pc 1).delivered = [⟨0, message 512, messageInfo 512⟩] ∧ message 512 ≠ message 0 := by
  obtain ⟨m, hrun, h⟩ := exec_transmits 513 (by decide)
  have hfirst : m.notified[0]? = some (⟨0, message 0, messageInfo 0⟩, 0) := by
    rw [h.notified, getElem?_map, getElem?_range (by decide)]
    rfl
  have hread := exec_alone (s := ⟨m, fun _ => {}⟩) (t := (1 : Tid))
    (exec_read rfl hfirst (ShmConf.blockNum_update_pos ShmConf.messageSize16K) (h.lock 0)
      (h.last 512 rfl) rfl)
  exact ⟨_, exec_append_eq_some.mpr ⟨_, hrun, hread⟩, hfirst, rfl, by decide⟩

/-- A message is read while another thread transmits the next one, which is read afterwards. -/
def promptReads : List (Tid × Act RawMessage) :=
  let next : List (Act RawMessage) := transmitActs (message 1) (messageInfo 1)
  transmits 1 ++ (next.take 5).map (2, ·) ++ readActs.map (1, ·) ++ (next.drop 5).map (2, ·) ++
    readActs.map (1, ·)

theorem delivers_announced_promptly :
    ∃ s, exec smallStep (init RawMessage) promptReads = some s ∧
      (s.pc 1).delivered = [⟨0, message 0, messageInfo 0⟩, ⟨1, message 1, messageInfo 1⟩] ∧
      (∀ d ∈ (s.pc 1).delivered, ∃ tx i, s.mem.notified[d.number]? = some (tx, i) ∧
        (RawMessage.traits.serializeToArray tx.msg).1 = true ∧
        RawMessage.traits.parseFromArray (RawMessage.traits.serializeToArray tx.msg).2 =
          some d.msg ∧
        (RawMessage.traits.RoundTrip → d.msg = tx.msg) ∧ d.info = tx.info) :=
  exists_exec_mono (P := fun s => (s.pc 1).delivered =
      [⟨0, message 0, messageInfo 0⟩, ⟨1, message 1, messageInfo 1⟩])
    (by decide +kernel) fun _ hs hP => ⟨hP, (delivers_announced hs (by decide +kernel) 1).1⟩

end Cyber.ShmChannel
