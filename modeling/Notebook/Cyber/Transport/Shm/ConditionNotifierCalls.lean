import Notebook.Cyber.Transport.Shm.ConditionNotifier

/-!
# Whole calls of the notifier

Between whole calls of `Notify` and `Listen` the ring holds the last `kBufLength` notifications. A
listener that waits for the number of a notification that is not in the ring any more looks into
the slot of this number, finds a later one there and goes on behind it. All notifications before
that one are lost for it, also those that the ring still holds.

Notifications are numbered here without a bound; `next_seq`, the numbers in `seqs` and `next_seq_`
are their remainders modulo `2 ^ 64`.
-/

open Interleaving Function List Option

namespace Cyber.ConditionNotifier

/-! ### Calls -/

/-- `Notify` -/
def Indicator.notify (mem : Indicator) (info : ReadableInfo) : Indicator where
  nextSeq := uint64 (mem.nextSeq + 1)
  infos := update mem.infos (slot mem.nextSeq) info
  seqs := update mem.seqs (slot mem.nextSeq) mem.nextSeq

/-- `Listen` of a listener with the given `next_seq_`: the number that it finds and the info that
it returns, if it returns `true`. Without a `Notify` in between, all rounds of its loop are the
same. -/
def Indicator.listen (mem : Indicator) (nextSeq : ℕ) : Option (ℕ × ReadableInfo) :=
  if mem.nextSeq ≠ nextSeq ∧ nextSeq ≤ mem.seqs (slot nextSeq) then
    some (mem.seqs (slot nextSeq), mem.infos (slot nextSeq))
  else none

section Exec

variable {T : Type*} [DecidableEq T] {s : State T}

theorem exec_notify {t : T} (ht : s.notifier t = .idle) (info : ReadableInfo) :
    exec step s [.notify t info, .next t, .next t] =
      some { s with mem := s.mem.notify info, sent := s.sent ++ [info] } := by
  have hback : update s.notifier t .idle = s.notifier :=
    update_eq_self_iff.mpr ht.symm
  simp [exec, step, ht, Indicator.notify, hback]

theorem exec_listen {n a : ℕ} {info : ReadableInfo} (hpc : s.listener = .poll n)
    (h : s.mem.listen n = some (a, info)) :
    exec step s [.listen, .listen, .listen] =
      some { s with
        listener := .poll (uint64 (a + 1)), returned := s.returned ++ [(a, info)] } := by
  rw [Indicator.listen, ite_none_right_eq_some] at h
  obtain ⟨⟨hne, hle⟩, heq⟩ := h
  cases heq
  simp [exec, step, hpc, hne, hle]

theorem exec_listen_none {n : ℕ} (hpc : s.listener = .poll n) (h : s.mem.listen n = none) :
    exec step s [.listen] = some s ∨ exec step s [.listen, .listen] = some s := by
  have hback : { s with listener := .poll n } = s := by rw [← hpc]
  by_cases hne : s.mem.nextSeq = n
  · refine .inl ?_
    simp [exec, step, hpc, hne, hback]
  · have hlt : s.mem.seqs (slot n) < n := by
      simpa [Indicator.listen, hne] using h
    refine .inr ?_
    simp [exec, step, hpc, hne, hlt.not_ge, hback]

end Exec

/-! ### The ring with the numbers of the notifications -/

/-- The `next_seq_` of the listener, and the number of the notification that it stands for. -/
structure Position where
  nextSeq : ℕ
  pos : ℕ
deriving DecidableEq, Repr

/-- The indicator and the listener, with the infos of all notifications, and the number of the
notification that each slot holds. -/
structure Calls where
  mem : Indicator := {}
  sent : List ReadableInfo := []
  holds : ℕ → ℕ := fun _ => 0
  listener : Option Position := none

/-- A call: of `Notify`, of the constructor of the listener, of `Listen`. -/
inductive Call
  | notify (info : ReadableInfo)
  | construct
  | listen
deriving DecidableEq, Repr

namespace Calls

/-- One call. -/
def step (s : Calls) : Call → Option Calls
  | .notify info => some { s with
      mem := s.mem.notify info
      sent := s.sent ++ [info]
      holds := update s.holds (slot s.mem.nextSeq) s.sent.length }
  | .construct =>
    match s.listener with
    | none => some { s with listener := some ⟨s.mem.nextSeq, s.sent.length⟩ }
    | some _ => none
  | .listen =>
    match s.listener with
    | none => none
    | some p =>
      match s.mem.listen p.nextSeq with
      | none => some s
      | some (actualSeq, _) => some { s with
          listener := some ⟨uint64 (actualSeq + 1), s.holds (slot p.nextSeq) + 1⟩ }

/-- No later notification has been written into the slot of the notification `n`. -/
def Held (s : Calls) (n : ℕ) : Prop :=
  n < s.sent.length ∧ ∀ m, n < m → m < s.sent.length → slot m ≠ slot n

/-- The notification `n` is the oldest in the ring that a listener at `pos` has not consumed. -/
def Oldest (s : Calls) (pos n : ℕ) : Prop :=
  s.Held n ∧ pos ≤ n ∧ ∀ m, s.Held m → pos ≤ m → n ≤ m

/-- `Listen` returns the oldest notification that the listener has not consumed, if there is one. -/
def ReturnsOldest (s : Calls) : Call → Prop
  | .listen => ∀ p, s.listener = some p → ∀ n, s.Oldest p.pos n →
      ∃ info, s.sent[n]? = some info ∧ s.holds (slot p.nextSeq) = n ∧
        s.mem.listen p.nextSeq = some (uint64 n, info)
  | _ => True

/-- The listener is not more than one lap behind, or it is a whole number of laps behind and the
numbers compare as they should. -/
def InReach (s : Calls) : Call → Prop
  | .listen => ∀ p, s.listener = some p → s.sent.length - p.pos ≤ kBufLength ∨
      (kBufLength ∣ s.sent.length - p.pos ∧
        uint64 p.pos ≤ uint64 (s.sent.length - kBufLength) ∧
        uint64 s.sent.length ≠ uint64 p.pos)
  | _ => True

variable {s s' : Calls} {n : ℕ}

theorem slot_uint64 (n : ℕ) : slot (uint64 n) = slot n :=
  Nat.mod_mod_of_dvd n ⟨2 ^ 52, by decide⟩

theorem uint64_uint64_succ (n : ℕ) : uint64 (uint64 n + 1) = uint64 (n + 1) := Nat.mod_add_mod ..

theorem held_iff : s.Held n ↔ n < s.sent.length ∧ s.sent.length ≤ n + kBufLength := by
  refine and_congr_right fun hn => ⟨fun h => ?_, fun h m hnm hm heq => ?_⟩
  · by_contra hlap
    exact h (n + kBufLength) (by simp [kBufLength]) (by omega) (Nat.add_mod_right ..)
  · simp only [slot, kBufLength] at h heq
    omega

variable {pos : ℕ}

theorem exists_held (hpos : pos < s.sent.length) : ∃ n, s.Held n ∧ slot n = slot pos ∧ pos ≤ n := by
  refine ⟨s.sent.length - 1 - (s.sent.length - 1 - pos) % kBufLength, held_iff.mpr ⟨?_, ?_⟩, ?_, ?_⟩
  all_goals
    simp only [slot, kBufLength]
    omega

/-- What the slots and the position of the listener mean. -/
structure Inv (s : Calls) : Prop where
  nextSeq : s.mem.nextSeq = uint64 s.sent.length
  slots : ∀ n, s.Held n → s.holds (slot n) = n ∧ s.mem.seqs (slot n) = uint64 n ∧
    s.sent[n]? = some (s.mem.infos (slot n))
  listener : ∀ p, s.listener = some p → p.nextSeq = uint64 p.pos ∧ p.pos ≤ s.sent.length

theorem inv_init : Inv {} where
  nextSeq := rfl
  slots _ h := by cases h.1
  listener _ h := by cases h

theorem Inv.notify (h : Inv s) (info : ReadableInfo) :
    Inv { s with
      mem := s.mem.notify info
      sent := s.sent ++ [info]
      holds := update s.holds (slot s.mem.nextSeq) s.sent.length } := by
  have hslot : slot s.mem.nextSeq = slot s.sent.length := by rw [h.nextSeq, slot_uint64]
  have hlength : (s.sent ++ [info]).length = s.sent.length + 1 := length_append
  refine ⟨?_, fun n hn => ?_, fun p hp => ?_⟩
  · simp only [Indicator.notify, h.nextSeq, hlength]
    exact uint64_uint64_succ _
  · rcases Nat.lt_succ_iff_lt_or_eq.mp (hlength ▸ hn.1) with hlt | rfl
    · -- the new notification has gone into another slot
      have hne : slot n ≠ slot s.mem.nextSeq := by
        rw [hslot]
        exact (hn.2 s.sent.length hlt (hlength ▸ Nat.lt_succ_self _)).symm
      have hheld : s.Held n := ⟨hlt, fun m hnm hm => hn.2 m hnm (hlength ▸ Nat.lt_succ_of_lt hm)⟩
      obtain ⟨hholds, hseqs, hsent⟩ := h.slots n hheld
      simp only [Indicator.notify, update_of_ne hne]
      exact ⟨hholds, hseqs, getElem?_mono (prefix_append ..) hsent⟩
    · simp [Indicator.notify, h.nextSeq, slot_uint64]
  · obtain ⟨hnext, hpos⟩ := h.listener p hp
    exact ⟨hnext, hlength ▸ Nat.le_succ_of_le hpos⟩

variable {p : Position}

theorem Inv.exists_held (h : Inv s) (hp : s.listener = some p) (hlt : p.pos < s.sent.length) :
    ∃ n, s.Held n ∧ slot n = slot p.pos ∧ p.pos ≤ n ∧ s.holds (slot p.nextSeq) = n ∧
      s.mem.seqs (slot p.nextSeq) = uint64 n ∧
      s.sent[n]? = some (s.mem.infos (slot p.nextSeq)) := by
  obtain ⟨n, hheld, hslot, hle⟩ := Calls.exists_held hlt
  have hlook : slot p.nextSeq = slot n := by rw [(h.listener p hp).1, slot_uint64, hslot]
  rw [hlook]
  exact ⟨n, hheld, hslot, hle, h.slots n hheld⟩

theorem Inv.lt_of_listen (h : Inv s) (hp : s.listener = some p)
    {r : ℕ × ReadableInfo} (hr : s.mem.listen p.nextSeq = some r) : p.pos < s.sent.length := by
  rw [Indicator.listen, ite_none_right_eq_some] at hr
  obtain ⟨hnext, hle⟩ := h.listener p hp
  refine hle.lt_of_ne fun heq => hr.1.1 ?_
  rw [h.nextSeq, hnext, heq]

theorem Inv.step {c : Call} (h : Inv s) (hstep : step s c = some s') : Inv s' := by
  cases c with
  | notify info =>
    cases hstep
    exact h.notify info
  | construct =>
    simp only [Calls.step] at hstep
    split at hstep
    · cases hstep
      refine { h with listener := ?_ }
      rintro p ⟨⟩
      exact ⟨h.nextSeq, le_rfl⟩
    · cases hstep
  | listen =>
    simp only [Calls.step] at hstep
    split at hstep
    · cases hstep
    rename_i p hp
    split at hstep
    · cases hstep
      exact h
    · rename_i a info hlisten
      cases hstep
      obtain ⟨n, hheld, -, -, hholds, hseqs, -⟩ := h.exists_held hp (h.lt_of_listen hp hlisten)
      rw [Indicator.listen, ite_none_right_eq_some] at hlisten
      obtain ⟨-, heq⟩ := hlisten
      cases heq
      refine { h with listener := ?_ }
      rintro q ⟨⟩
      rw [hholds, hseqs]
      exact ⟨uint64_uint64_succ n, hheld.1⟩

theorem oldest_iff (hlt : pos < s.sent.length) :
    s.Oldest pos n ↔ n = max pos (s.sent.length - kBufLength) := by
  constructor
  · rintro ⟨hheld, hpos, hleast⟩
    have hmax : s.Held (max pos (s.sent.length - kBufLength)) := by
      rw [held_iff, kBufLength]
      omega
    have hle := hleast _ hmax (le_max_left ..)
    rw [held_iff] at hheld
    omega
  · rintro rfl
    refine ⟨?_, le_max_left .., fun m hm hpos => ?_⟩
    · rw [held_iff, kBufLength]
      omega
    · rw [held_iff] at hm
      omega

/-- The notification in the slot of `pos` is the oldest one from `pos` on when `pos` is at most one
lap behind, or a whole number of laps. -/
theorem Held.eq_max_iff (h : s.Held n) (hslot : slot n = slot pos) (hle : pos ≤ n) :
    n = max pos (s.sent.length - kBufLength) ↔
      s.sent.length - pos ≤ kBufLength ∨ kBufLength ∣ s.sent.length - pos := by
  obtain ⟨hlt, hlap⟩ := held_iff.mp h
  have hdvd : kBufLength ∣ n - pos := (Nat.modEq_iff_dvd' hle).mp (Eq.symm hslot)
  have hsplit : s.sent.length - pos = s.sent.length - n + (n - pos) := by omega
  have hlast : kBufLength ∣ s.sent.length - n ↔ s.sent.length - n = kBufLength :=
    ⟨fun h => le_antisymm (by omega) (Nat.le_of_dvd (by omega) h), fun h => by rw [h]⟩
  rw [hsplit, Nat.dvd_add_left hdvd, hlast]
  rcases eq_zero_or_pos (n - pos) with heq | hpos
  · omega
  · have hbehind : kBufLength ≤ n - pos := Nat.le_of_dvd hpos hdvd
    omega

/-- The listener gets the oldest notification exactly when this is the one in the slot that it looks
into, and `Listen` does not return `false`. -/
theorem Inv.returnsOldest_iff (h : Inv s) (hp : s.listener = some p) (hlt : p.pos < s.sent.length) :
    s.ReturnsOldest .listen ↔
      s.holds (slot p.nextSeq) = max p.pos (s.sent.length - kBufLength) ∧
        s.mem.nextSeq ≠ p.nextSeq ∧ p.nextSeq ≤ s.mem.seqs (slot p.nextSeq) := by
  obtain ⟨n, -, -, -, hholds, hseqs, hsent⟩ := h.exists_held hp hlt
  constructor
  · intro hreturns
    obtain ⟨info, -, hmax, hlisten⟩ := hreturns p hp _ ((oldest_iff hlt).mpr rfl)
    rw [Indicator.listen, ite_none_right_eq_some] at hlisten
    exact ⟨hmax, hlisten.1⟩
  · rintro ⟨hmax, hfinds⟩ q hq m hm
    obtain rfl : p = q := some.inj (hp.symm.trans hq)
    have hm : m = n := by rw [(oldest_iff hlt).mp hm, ← hmax, hholds]
    subst hm
    refine ⟨_, hsent, hholds, ?_⟩
    rw [Indicator.listen, if_pos hfinds, hseqs]

/-- `Listen` returns the oldest notification exactly if the listener is in reach. -/
theorem Inv.returnsOldest_iff_inReach (h : Inv s) (c : Call) :
    s.ReturnsOldest c ↔ s.InReach c := by
  cases c with
  | notify | construct => exact Iff.rfl
  | listen =>
    cases hp : s.listener with
    | none =>
      refine iff_of_true (fun p hp' => ?_) fun p hp' => ?_
      all_goals
        rw [hp] at hp'
        cases hp'
    | some p =>
      have hreach : s.InReach .listen ↔ s.sent.length - p.pos ≤ kBufLength ∨
          (kBufLength ∣ s.sent.length - p.pos ∧
            uint64 p.pos ≤ uint64 (s.sent.length - kBufLength) ∧
            uint64 s.sent.length ≠ uint64 p.pos) := by
        simp only [InReach, hp, some.injEq, forall_eq']
      obtain ⟨hnext, hle⟩ := h.listener p hp
      rcases hle.lt_or_eq with hlt | heq
      · obtain ⟨n, hheld, hslot, hpos, hholds, hseqs, -⟩ := h.exists_held hp hlt
        rw [hreach, h.returnsOldest_iff hp hlt, hholds, hseqs, hnext, h.nextSeq]
        have hmax := hheld.eq_max_iff hslot hpos
        by_cases hnear : s.sent.length - p.pos ≤ kBufLength
        · obtain rfl : n = p.pos := by
            have := hmax.mpr (.inl hnear)
            omega
          refine iff_of_true ⟨hmax.mpr (.inl hnear), ?_, le_rfl⟩ (.inl hnear)
          simp only [uint64, kBufLength] at hnear ⊢
          omega
        · rw [hmax]
          simp only [hnear, false_or]
          refine and_congr_right fun hdvd => ?_
          have hn : n = s.sent.length - kBufLength := by
            have := hmax.mpr (.inr hdvd)
            omega
          rw [← hn, and_comm]
      · refine iff_of_true (fun q hq n hn => ?_) (hreach.mpr (.inl (by omega)))
        obtain rfl : p = q := some.inj (hp.symm.trans hq)
        exact absurd hn.1.1 (heq ▸ hn.2.1).not_gt

/-- **When `Listen` returns the oldest notification.** In a sequence of whole calls every `Listen`
returns the oldest notification that is in the ring and that the listener has not consumed, exactly
when at every `Listen` the listener is at most one lap behind, or a whole number of laps behind with
numbers that compare as they should. -/
theorem returns_oldest_iff {cs : List Call} (hrun : exec step {} cs = some s) :
    AllSteps step ReturnsOldest {} cs ↔ AllSteps step InReach {} cs :=
  allSteps_iff_of_invariant Inv (fun _ c _ h _ => h.returnsOldest_iff_inReach c)
    (fun _ _ _ h _ hstep => h.step hstep) inv_init hrun

/-- The listener falls behind by two notifications and catches up. -/
theorem returns_oldest_iff_behind :
    let cs : List Call := [.construct, .notify firstInfo, .notify {}, .listen, .notify firstInfo,
      .listen, .listen]
    ∃ s, exec step {} cs = some s ∧ s.listener = some ⟨3, 3⟩ ∧ AllSteps step ReturnsOldest {} cs :=
  ⟨_, rfl, rfl, (returns_oldest_iff rfl).mpr
    (by simp [AllSteps, step, InReach, kBufLength, Indicator.notify, Indicator.listen, slot,
      uint64])⟩

/-! ### A listener that has been lapped -/

theorem exec_notifies (s : Calls) (info : ReadableInfo) (k : ℕ) :
    ∃ s', exec step s (List.replicate k (.notify info)) = some s' ∧
      s'.sent = s.sent ++ List.replicate k info ∧ s'.listener = s.listener := by
  induction k generalizing s with
  | zero => exact ⟨s, rfl, (append_nil _).symm, rfl⟩
  | succ k ih =>
    obtain ⟨s', hrun, hsent, hlistener⟩ := ih { s with
      mem := s.mem.notify info
      sent := s.sent ++ [info]
      holds := update s.holds (slot s.mem.nextSeq) s.sent.length }
    refine ⟨s', hrun, ?_, hlistener⟩
    rw [hsent, append_assoc, singleton_append, replicate_succ]

/-- The listener waits for the notification `0` while `4097` notifications are made. The ring holds
the notifications `1`, …, `4096`, and `Listen` returns the last of them. -/
theorem listen_skips_held :
    ∃ s, exec step {} (.construct :: List.replicate 4097 (.notify firstInfo)) = some s ∧
      s.listener = some ⟨0, 0⟩ ∧ s.Oldest 0 1 ∧ s.holds (slot 0) = 4096 ∧
      s.mem.listen 0 = some (4096, firstInfo) := by
  obtain ⟨s, hnotifies, hsent, hlistener⟩ :=
    exec_notifies { listener := some ⟨0, 0⟩ } firstInfo 4097
  have hrun : exec step {} (.construct :: List.replicate 4097 (.notify firstInfo)) = some s :=
    exec_cons_eq_some.mpr ⟨_, rfl, hnotifies⟩
  have hinv : Inv s := exec_invariant Inv (fun _ _ _ h hstep => h.step hstep) inv_init hrun
  have hlength : s.sent.length = 4097 := by rw [hsent, nil_append, length_replicate]
  obtain ⟨n, hheld, hslot, -, hholds, hseqs, hinfo⟩ :=
    hinv.exists_held hlistener (show 0 < s.sent.length by omega)
  obtain rfl : n = 4096 := by
    rw [held_iff] at hheld
    simp only [slot, kBufLength] at hheld hslot
    omega
  refine ⟨s, hrun, hlistener, (oldest_iff (by omega)).mpr (by rw [hlength]; rfl), hholds, ?_⟩
  rw [hsent, nil_append, getElem?_replicate_of_lt (by decide)] at hinfo
  have hfinds : s.mem.nextSeq ≠ 0 := by
    rw [hinv.nextSeq, hlength]
    decide
  rw [Indicator.listen, if_pos ⟨hfinds, Nat.zero_le _⟩, ← some.inj hinfo, hseqs]
  rfl

end Calls

end Cyber.ConditionNotifier
