import Notebook.Interleaving.Threads

/-!
# The notifier over a ring in shared memory

`ConditionNotifier` (`transport/shm/condition_notifier.cc`) tells the processes of a host which
blocks are readable. A `Notify` draws a number from `next_seq` and writes its `ReadableInfo` into
the slot of the number in `infos`, and then the number into the same slot of `seqs`; there are
`kBufLength` slots. The listener waits for its own number: when `next_seq` has moved on, it reads
`seqs` at the slot of its number, and if it finds the number there, or a later one, it reads
`infos`.

Nothing keeps a `Notify` that is a lap ahead from writing `infos` between the two reads of the
listener, or before it has written `seqs`. Since `seqs` starts with zeros, the slot of number `0`
looks written from the start.

The model lets any number of notifiers and one listener make these reads and writes one at a time.
-/

open Interleaving Function List

namespace Cyber

/-- `ReadableInfo`, by default with all fields `0`. -/
structure ReadableInfo where
  hostId : ℕ := 0
  blockIndex : ℕ := 0
  channelId : ℕ := 0
deriving DecidableEq, Repr

namespace ConditionNotifier

/-- `kBufLength` -/
def kBufLength : ℕ := 4096

/-- The slot of a number. -/
def slot (seq : ℕ) : ℕ := seq % kBufLength

/-- `Indicator` -/
structure Indicator where
  nextSeq : ℕ := 0
  infos : ℕ → ReadableInfo := fun _ => {}
  seqs : ℕ → ℕ := fun _ => 0

/-- Where a notifier is in `Notify`, by the operation that it makes next. -/
inductive Notifier
  | idle
  | writeInfo (info : ReadableInfo) (seq : ℕ)
  | writeSeq (seq : ℕ)
deriving DecidableEq, Repr

/-- Where the listener is, with its `next_seq_`: before the constructor has read `next_seq`, or in
the loop of `Listen`. Between two calls of `Listen` it is at `poll`. -/
inductive Listener
  | off
  | poll (nextSeq : ℕ)
  | readSeq (nextSeq : ℕ)
  | readInfo (idx actualSeq : ℕ)
deriving DecidableEq, Repr

/-- The indicator, the notifiers and the listener; the infos of all `Notify` calls, by number; and
what the listener has returned, with the numbers that it considers consumed. -/
structure State (T : Type*) where
  mem : Indicator := {}
  notifier : T → Notifier := fun _ => .idle
  listener : Listener := .off
  sent : List ReadableInfo := []
  returned : List (ℕ × ReadableInfo) := []

/-- `notify t info` is the call of `Notify`, up to the `fetch_add`; `next t` is the next write of
the notifier `t`; `listen` is the next read of the listener. -/
inductive Event (T : Type*)
  | notify (t : T) (info : ReadableInfo)
  | next (t : T)
  | listen
deriving DecidableEq, Repr

variable {T : Type*}

/-- One read or write. -/
def step [DecidableEq T] (s : State T) : Event T → Option (State T)
  | .notify t info =>
    match s.notifier t with
    | .idle => some { s with
        mem := { s.mem with nextSeq := uint64 (s.mem.nextSeq + 1) }
        notifier := update s.notifier t (.writeInfo info s.mem.nextSeq)
        sent := s.sent ++ [info] }
    | _ => none
  | .next t =>
    match s.notifier t with
    | .idle => none
    | .writeInfo info seq => some { s with
        mem := { s.mem with infos := update s.mem.infos (slot seq) info }
        notifier := update s.notifier t (.writeSeq seq) }
    | .writeSeq seq => some { s with
        mem := { s.mem with seqs := update s.mem.seqs (slot seq) seq }
        notifier := update s.notifier t .idle }
  | .listen =>
    match s.listener with
    | .off => some { s with listener := .poll s.mem.nextSeq }
    | .poll nextSeq =>
      some { s with
        listener := if s.mem.nextSeq ≠ nextSeq then .readSeq nextSeq else .poll nextSeq }
    | .readSeq nextSeq =>
      let actualSeq := s.mem.seqs (slot nextSeq)
      some { s with
        listener := if nextSeq ≤ actualSeq then .readInfo (slot nextSeq) actualSeq
          else .poll nextSeq }
    | .readInfo idx actualSeq => some { s with
        listener := .poll (uint64 (actualSeq + 1))
        returned := s.returned ++ [(actualSeq, s.mem.infos idx)] }

/-! ### Undisturbed runs -/

/-- Some `Notify` has written the info of the slot `i` and not yet the number. -/
def Between (s : State T) (i : ℕ) : Prop := ∃ t seq, s.notifier t = .writeSeq seq ∧ slot seq = i

/-- A number does not wrap around; the info of a slot is written when no other `Notify` is between
its two writes to the slot and the listener is not between its two reads; and the listener finds a
number in a slot when no `Notify` is between its two writes to the slot, and none that has drawn the
number has still to write. -/
def Undisturbed (s : State T) : Event T → Prop
  | .notify _ _ => s.mem.nextSeq + 1 < 2 ^ 64
  | .next t => ∀ info seq, s.notifier t = .writeInfo info seq →
      ¬Between s (slot seq) ∧ ∀ actualSeq, s.listener ≠ .readInfo (slot seq) actualSeq
  | .listen => ∀ nextSeq, s.listener = .readSeq nextSeq → nextSeq ≤ s.mem.seqs (slot nextSeq) →
      ¬Between s (slot nextSeq) ∧
        ∀ t info, s.notifier t ≠ .writeInfo info (s.mem.seqs (slot nextSeq))

section Decidable

variable [Fintype T] (s : State T)

instance (i : ℕ) : Decidable (Between s i) :=
  have (t : T) : Decidable (∃ seq, s.notifier t = .writeSeq seq ∧ slot seq = i) :=
    match s.notifier t with
    | .writeSeq seq => decidable_of_iff (slot seq = i) (by simp)
    | .idle | .writeInfo _ _ => .isFalse nofun
  inferInstanceAs (Decidable (∃ t, _))

instance : (e : Event T) → Decidable (Undisturbed s e)
  | .notify _ _ => inferInstanceAs (Decidable (_ < _))
  | .next t =>
    have (i : ℕ) : Decidable (∀ actualSeq, s.listener ≠ .readInfo i actualSeq) :=
      match s.listener with
      | .readInfo idx _ => decidable_of_iff (idx ≠ i) (by simp)
      | .off | .poll _ | .readSeq _ => .isTrue nofun
    match h : s.notifier t with
    | .writeInfo _ seq => decidable_of_iff
        (¬Between s (slot seq) ∧ ∀ actualSeq, s.listener ≠ .readInfo (slot seq) actualSeq)
        (by simp [Undisturbed, h])
    | .idle | .writeSeq _ => .isTrue (by simp [Undisturbed, h])
  | .listen =>
    have (t : T) (n : ℕ) : Decidable (∀ info, s.notifier t ≠ .writeInfo info n) :=
      match s.notifier t with
      | .writeInfo _ seq => decidable_of_iff (seq ≠ n) (by simp)
      | .idle | .writeSeq _ => .isTrue nofun
    match h : s.listener with
    | .readSeq n => decidable_of_iff (n ≤ s.mem.seqs (slot n) → ¬Between s (slot n) ∧
        ∀ t info, s.notifier t ≠ .writeInfo info (s.mem.seqs (slot n))) (by simp [Undisturbed, h])
    | .off | .poll _ | .readInfo _ _ => .isTrue (by simp [Undisturbed, h])

end Decidable

/-- What a notifier knows: its info is the one of its number, and once it has written the info it
stands in the slot. -/
def Notifier.Sound (s : State T) : Notifier → Prop
  | .idle => True
  | .writeInfo info seq => s.sent[seq]? = some info
  | .writeSeq seq => s.sent[seq]? = some (s.mem.infos (slot seq))

/-- What the listener knows: the numbers that it has returned are behind it, and the info that it is
about to read is the one of the number that it has found. -/
def Listener.Sound (s : State T) : Listener → Prop
  | .off => s.returned = []
  | .poll nextSeq => ∀ r ∈ s.returned, r.1 < nextSeq
  | .readSeq nextSeq => (∀ r ∈ s.returned, r.1 < nextSeq) ∧ (nextSeq = 0 → s.sent ≠ [])
  | .readInfo idx actualSeq =>
    (∀ r ∈ s.returned, r.1 < actualSeq) ∧ s.sent[actualSeq]? = some (s.mem.infos idx)

/-- Nobody has written the slot `i`. If it is the slot of number `0`, then the `Notify` that draws
this number has still to write it. -/
def Unwritten (s : State T) (i : ℕ) : Prop :=
  s.mem.seqs i = 0 ∧ (i = 0 → s.sent = [] ∨ ∃ t info, s.notifier t = .writeInfo info 0)

/-- The invariant of undisturbed runs. -/
structure Inv (s : State T) : Prop where
  nextSeq : s.mem.nextSeq = s.sent.length
  nextSeq_lt : s.mem.nextSeq < 2 ^ 64
  notifiers : ∀ t, (s.notifier t).Sound s
  slots : ∀ i, ¬Between s i → s.sent[s.mem.seqs i]? = some (s.mem.infos i) ∨ Unwritten s i
  listener : s.listener.Sound s
  authentic : ∀ r ∈ s.returned, s.sent[r.1]? = some r.2
  increasing : s.returned.Pairwise fun r r' => r.1 < r'.1

theorem inv_init : Inv ({} : State T) where
  nextSeq := rfl
  nextSeq_lt := Nat.two_pow_pos 64
  notifiers _ := trivial
  slots _ _ := .inr ⟨rfl, fun _ => .inl rfl⟩
  listener := rfl
  authentic _ h := by cases h
  increasing := .nil

section Steps

variable {s s' : State T} {t : T} {v : Notifier} {i : ℕ}

theorem Notifier.Sound.mono (h : v.Sound s) (hsent : s.sent <+: s'.sent)
    (hinfos : ∀ seq, v = .writeSeq seq → s'.mem.infos (slot seq) = s.mem.infos (slot seq)) :
    v.Sound s' := by
  cases v with
  | idle => trivial
  | writeInfo info seq => exact getElem?_mono hsent h
  | writeSeq seq => exact getElem?_mono hsent (h.trans (by rw [hinfos seq rfl]))

theorem Listener.Sound.mono {l : Listener} (h : l.Sound s) (hsent : s.sent <+: s'.sent)
    (hreturned : s'.returned = s.returned)
    (hinfos : ∀ idx a, l = .readInfo idx a → s'.mem.infos idx = s.mem.infos idx) : l.Sound s' := by
  cases l with
  | off => exact hreturned.trans h
  | poll n => exact fun r hr => h r (hreturned ▸ hr)
  | readSeq n =>
    refine ⟨hreturned ▸ h.1, fun hn hnil => h.2 hn ?_⟩
    exact prefix_nil.mp (hnil ▸ hsent)
  | readInfo idx a =>
    exact ⟨hreturned ▸ h.1, getElem?_mono hsent (h.2.trans (by rw [hinfos idx a rfl]))⟩

variable [DecidableEq T]

theorem Between.update (h : Between s i) (hv : s'.notifier = update s.notifier t v)
    (ht : ∀ seq, s.notifier t = .writeSeq seq → slot seq ≠ i) : Between s' i := by
  obtain ⟨u, seq, hu, hi⟩ := h
  have hne : u ≠ t := by
    rintro rfl
    exact ht seq hu hi
  exact ⟨u, seq, by rw [hv, update_of_ne hne, hu], hi⟩

theorem Unwritten.update (h : Unwritten s i) (hv : s'.notifier = update s.notifier t v)
    (hsent : s'.sent = s.sent) (hseqs : s'.mem.seqs i = s.mem.seqs i)
    (ht : ∀ info, s.notifier t = .writeInfo info 0 → i ≠ 0) : Unwritten s' i := by
  refine ⟨hseqs.trans h.1, fun hi => ?_⟩
  rw [hsent]
  rcases h.2 hi with hnil | ⟨u, info, hu⟩
  · exact .inl hnil
  · have hne : u ≠ t := by
      rintro rfl
      exact ht info hu hi
    exact .inr ⟨u, info, by rw [hv, update_of_ne hne, hu]⟩

/-- A `Notify` takes the next number. -/
theorem Inv.notify {info : ReadableInfo} (h : Inv s) (hlt : s.mem.nextSeq + 1 < 2 ^ 64)
    (ht : s.notifier t = .idle) :
    Inv { s with
      mem := { s.mem with nextSeq := uint64 (s.mem.nextSeq + 1) }
      notifier := update s.notifier t (.writeInfo info s.mem.nextSeq)
      sent := s.sent ++ [info] } := by
  have hprefix : s.sent <+: s.sent ++ [info] := prefix_append ..
  refine ⟨?_, ?_, ?_, ?_, h.listener.mono hprefix rfl fun _ _ _ => rfl,
    fun r hr => getElem?_mono hprefix (h.authentic r hr), h.increasing⟩
  · rw [uint64_eq_self hlt, h.nextSeq, length_append, length_singleton]
  · rwa [uint64_eq_self hlt]
  · intro u
    by_cases hu : u = t
    · subst hu
      simp [Notifier.Sound, h.nextSeq]
    · simp only [update_of_ne hu]
      exact (h.notifiers u).mono hprefix fun _ _ => rfl
  · intro i hi
    have hi' : ¬Between s i := fun hb => hi (hb.update rfl (by simp [ht]))
    rcases h.slots i hi' with hwritten | ⟨hseqs, hzero⟩
    · exact .inl (getElem?_mono hprefix hwritten)
    · refine .inr ⟨hseqs, fun hi0 => .inr ?_⟩
      rcases hzero hi0 with hnil | ⟨u, info', hu⟩
      · exact ⟨t, info, by simp [h.nextSeq, hnil]⟩
      · have hne : u ≠ t := by
          rintro rfl
          simp [ht] at hu
        exact ⟨u, info', (update_of_ne hne ..).trans hu⟩

/-- The info of a slot is written while nobody else uses the slot. -/
theorem Inv.writeInfo {info : ReadableInfo} {seq : ℕ} (h : Inv s)
    (ht : s.notifier t = .writeInfo info seq) (hslot : ¬Between s (slot seq))
    (hlisten : ∀ a, s.listener ≠ .readInfo (slot seq) a) :
    Inv { s with
      mem := { s.mem with infos := update s.mem.infos (slot seq) info }
      notifier := update s.notifier t (.writeSeq seq) } := by
  have hinfo : s.sent[seq]? = some info := by simpa [ht, Notifier.Sound] using h.notifiers t
  refine ⟨h.nextSeq, h.nextSeq_lt, ?_, ?_, ?_, h.authentic, h.increasing⟩
  · intro u
    by_cases hu : u = t
    · subst hu
      simpa [Notifier.Sound] using hinfo
    · simp only [update_of_ne hu]
      refine (h.notifiers u).mono prefix_rfl fun seq' hpc => update_of_ne ?_ ..
      exact fun heq => hslot ⟨u, seq', hpc, heq⟩
  · intro i hi
    have hne : i ≠ slot seq := by
      rintro rfl
      exact hi ⟨t, seq, update_self .., rfl⟩
    have hi' : ¬Between s i := fun hb => hi (hb.update rfl (by simp [ht]))
    rcases h.slots i hi' with hwritten | hunwritten
    · refine .inl ?_
      simpa [hne] using hwritten
    · refine .inr (hunwritten.update rfl rfl rfl fun info' ht' => ?_)
      rw [ht] at ht'
      cases ht'
      exact hne
  · refine h.listener.mono prefix_rfl rfl fun idx a hpc => update_of_ne ?_ ..
    rintro rfl
    exact hlisten a hpc

theorem Inv.writeSeq {seq : ℕ} (h : Inv s) (ht : s.notifier t = .writeSeq seq) :
    Inv { s with
      mem := { s.mem with seqs := update s.mem.seqs (slot seq) seq }
      notifier := update s.notifier t .idle } := by
  have hinfo : s.sent[seq]? = some (s.mem.infos (slot seq)) := by
    simpa [ht, Notifier.Sound] using h.notifiers t
  refine ⟨h.nextSeq, h.nextSeq_lt, ?_, ?_, ?_, h.authentic, h.increasing⟩
  · intro u
    by_cases hu : u = t
    · subst hu
      simp [Notifier.Sound]
    · simp only [update_of_ne hu]
      exact h.notifiers u
  · intro i hi
    by_cases hne : i = slot seq
    · subst hne
      exact .inl (by simpa using hinfo)
    · have hi' : ¬Between s i := by
        refine fun hb => hi (hb.update rfl fun seq' ht' => ?_)
        rw [ht] at ht'
        cases ht'
        exact Ne.symm hne
      rcases h.slots i hi' with hwritten | hunwritten
      · exact .inl (by simpa [hne] using hwritten)
      · exact .inr (hunwritten.update rfl rfl (update_of_ne hne ..) (by simp [ht]))
  · exact h.listener

omit [DecidableEq T] in
/-- The number that the listener finds in a slot is that of the info beside it. -/
theorem Inv.finds {n : ℕ} (h : Inv s) (hpc : s.listener = .readSeq n)
    (hle : n ≤ s.mem.seqs (slot n)) (hslot : ¬Between s (slot n))
    (hpending : ∀ t info, s.notifier t ≠ .writeInfo info (s.mem.seqs (slot n))) :
    (Listener.readInfo (slot n) (s.mem.seqs (slot n))).Sound s := by
  obtain ⟨hreturned, hsent⟩ : (Listener.readSeq n).Sound s := hpc ▸ h.listener
  refine ⟨fun r hr => (hreturned r hr).trans_le hle, ?_⟩
  rcases h.slots (slot n) hslot with hwritten | ⟨hseqs, hzero⟩
  · exact hwritten
  · -- an unwritten slot holds `0`, and the listener waits for that at number `0` only
    obtain rfl : n = 0 := by omega
    rcases hzero rfl with hnil | ⟨t, info, ht⟩
    · exact absurd hnil (hsent rfl)
    · exact absurd (ht.trans (by rw [hseqs])) (hpending t info)

omit [DecidableEq T] in
theorem Inv.returns {idx a : ℕ} (h : Inv s) (hpc : s.listener = .readInfo idx a) :
    Inv { s with
      listener := .poll (uint64 (a + 1))
      returned := s.returned ++ [(a, s.mem.infos idx)] } := by
  obtain ⟨hreturned, hsent⟩ : (Listener.readInfo idx a).Sound s := hpc ▸ h.listener
  have hlt : a < s.sent.length := (List.getElem?_eq_some_iff.mp hsent).1
  have hword : uint64 (a + 1) = a + 1 :=
    uint64_eq_self ((Nat.succ_le_of_lt (h.nextSeq ▸ hlt)).trans_lt h.nextSeq_lt)
  refine { h with
    listener := ?_
    authentic := forall_mem_append.mpr ⟨h.authentic, forall_mem_singleton.mpr hsent⟩
    increasing := ?_ }
  · rw [hword]
    exact forall_mem_append.mpr ⟨fun r hr => (hreturned r hr).trans (Nat.lt_succ_self a),
      forall_mem_singleton.mpr (Nat.lt_succ_self a)⟩
  · refine pairwise_append.mpr ⟨h.increasing, pairwise_singleton .., fun r hr => ?_⟩
    exact forall_mem_singleton.mpr (hreturned r hr)

/-- An undisturbed listener reads the info of the number that it has read. -/
theorem Inv.listen (h : Inv s) (hC : Undisturbed s .listen) (hstep : step s .listen = some s') :
    Inv s' := by
  have hlistener := h.listener
  simp only [step] at hstep
  split at hstep
  · rename_i hpc
    cases hstep
    rw [hpc] at hlistener
    refine { h with listener := ?_ }
    intro r hr
    rw [show s.returned = [] from hlistener] at hr
    cases hr
  · rename_i n hpc
    cases hstep
    rw [hpc] at hlistener
    refine { h with listener := ?_ }
    split
    · rename_i hne
      refine ⟨hlistener, fun hn hnil => hne ?_⟩
      rw [h.nextSeq, hnil, hn]
      rfl
    · exact hlistener
  · rename_i n hpc
    cases hstep
    rw [hpc] at hlistener
    refine { h with listener := ?_ }
    split
    · rename_i hle
      obtain ⟨hslot, hpending⟩ := hC n hpc hle
      exact h.finds hpc hle hslot hpending
    · exact hlistener.1
  · rename_i idx a hpc
    cases hstep
    exact h.returns hpc

theorem Inv.step {e : Event T} (h : Inv s) (hC : Undisturbed s e) (hstep : step s e = some s') :
    Inv s' := by
  cases e with
  | notify t info =>
    simp only [ConditionNotifier.step] at hstep
    split at hstep
    · rename_i ht
      cases hstep
      exact h.notify hC ht
    · cases hstep
  | next t =>
    simp only [ConditionNotifier.step] at hstep
    split at hstep
    · cases hstep
    · rename_i info seq ht
      cases hstep
      exact h.writeInfo ht (hC info seq ht).1 (hC info seq ht).2
    · rename_i seq ht
      cases hstep
      exact h.writeSeq ht
  | listen => exact h.listen hC hstep

/-- **What the listener returns in an undisturbed run** is what the `Notify` calls have sent under
the numbers that it considers consumed, and these numbers strictly increase. -/
theorem listen_authentic {es : List (Event T)} (hrun : exec step {} es = some s)
    (hC : AllSteps step Undisturbed {} es) :
    (∀ r ∈ s.returned, s.sent[r.1]? = some r.2) ∧
      s.returned.Pairwise fun r r' => r.1 < r'.1 := by
  have hinv : Inv s := exec_invariant_of_allSteps Inv (fun _ _ _ h hC hstep => h.step hC hstep)
    inv_init hC hrun
  exact ⟨hinv.authentic, hinv.increasing⟩

end Steps

/-- The info of a first notification. -/
def firstInfo : ReadableInfo := ⟨1, 2, 3⟩

/-- A `Notify` has drawn the number `0` and not yet written its slot: the listener returns the info
that the slot was initialised with. -/
theorem listen_unwritten :
    ∃ s : State ℕ, exec step {} [.listen, .notify 0 firstInfo, .listen, .listen, .listen] = some s ∧
      s.sent = [firstInfo] ∧ s.returned = [(0, {})] :=
  ⟨_, rfl, rfl, rfl⟩

/-- Two `Notify` calls that overlap, the second of which writes first, and the `Listen` calls that
return both infos. -/
theorem listen_authentic_twice :
    ∃ s : State (Fin 2), exec step {}
        ([.listen, .notify 0 firstInfo, .notify 1 {}, .next 1, .next 1, .next 0, .next 0] ++
          List.replicate 6 .listen) = some s ∧
      s.returned = [(0, firstInfo), (1, {})] ∧ (∀ r ∈ s.returned, s.sent[r.1]? = some r.2) ∧
      s.returned.Pairwise fun r r' => r.1 < r'.1 :=
  exists_exec_mono (P := fun s => s.returned = [(0, firstInfo), (1, {})]) ⟨_, rfl, rfl⟩
    fun _ hs hP => ⟨hP, listen_authentic hs (by decide +kernel)⟩

end ConditionNotifier

end Cyber
