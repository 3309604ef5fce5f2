import Notebook.Cyber.Base.AtomicHashMap

/-!
# Runs of the atomic hash map

A walk along a bucket stands on an entry with a smaller key, and stays there however the list grows,
because entries are never removed; so the load that ends the walk decides at that moment whether the
key has an entry. An `Insert` that finds its key replaces the value from then on: it cannot come
back to inserting an entry, although its loop allows for it. An entry made afterwards could be made
from a moved object.
-/

open Container Interleaving Option Threads

namespace Cyber.AtomicHashMap

variable {K V : Type*} {P : Params K V} {m m' : Mem K V} {key : K} {prev n : ℕ}

/-! ### What a thread knows -/

/-- The table `m'` is `m` after some operations: the entries stay where they are. -/
def Le (P : Params K V) (m m' : Mem K V) : Prop :=
  ∀ i < P.tableSize, ∀ n ∈ m.bucket i, n ∈ m'.bucket i ∧ m'.key n = m.key n

/-- What the locals of `Insert` hold: the new entry and the new value are made from the argument,
the object with the value is as it was as long as no new value was made, and a new value is made
only when the key has an entry. -/
structure Insert.Good (P : Params K V) (m : Mem K V) (i : Insert K V) : Prop where
  newEntry : ∀ p ∈ i.newEntry, p.value = i.arg
  newValue : ∀ p ∈ i.newValue, p.value = i.arg ∧ ∃ n, m.At P i.key n
  value : i.newValue = none → i.value = i.arg

theorem le_refl (m : Mem K V) : Le P m m := fun _ _ _ hn => ⟨hn, rfl⟩

theorem Le.at (hle : Le P m m') (hn : m.At P key n) : m'.At P key n := by
  obtain ⟨hmem, hkey⟩ := hle _ (index_lt P key) n hn.1
  exact ⟨hmem, hkey.trans hn.2⟩

variable {i : Insert K V} {addr : ℕ}

theorem Insert.Good.mono (hle : Le P m m') (h : i.Good P m) : i.Good P m' where
  newEntry := h.newEntry
  newValue p hp := by
    obtain ⟨hvalue, n, hn⟩ := h.newValue p hp
    exact ⟨hvalue, n, hle.at hn⟩
  value := h.value

@[simp] theorem key_makeValue : (i.makeValue P addr).key = i.key := by
  unfold Insert.makeValue
  split <;> rfl

@[simp] theorem arg_makeValue : (i.makeValue P addr).arg = i.arg := by
  unfold Insert.makeValue
  split <;> rfl

@[simp] theorem key_makeEntry : (i.makeEntry addr).key = i.key := by
  unfold Insert.makeEntry
  split <;> rfl

@[simp] theorem arg_makeEntry : (i.makeEntry addr).arg = i.arg := by
  unfold Insert.makeEntry
  split <;> rfl

theorem Insert.Good.makeValue (h : i.Good P m) (hat : m.At P i.key n) (addr : ℕ) :
    (i.makeValue P addr).Good P m ∧ ∃ p, (i.makeValue P addr).newValue = some p := by
  unfold Insert.makeValue
  split
  · rename_i p hp
    exact ⟨h, p, hp⟩
  · rename_i hnone
    refine ⟨⟨h.newEntry, fun p hp => ?_, fun hsome => by cases hsome⟩, _, rfl⟩
    obtain rfl := some.inj hp
    exact ⟨h.value hnone, n, hat⟩

/-- A new entry is made when the key has none. So no new value was made before, and the value is
still the argument. -/
theorem Insert.Good.makeEntry (h : i.Good P m) (hat : ∀ n, ¬m.At P i.key n) (addr : ℕ) :
    (i.makeEntry addr).Good P m ∧ ∃ p, (i.makeEntry addr).newEntry = some p := by
  have hnone : i.newValue = none := by
    rw [eq_none_iff_forall_not_mem]
    intro p hp
    obtain ⟨-, n, hn⟩ := h.newValue p hp
    exact hat n hn
  unfold Insert.makeEntry
  split
  · rename_i p hp
    exact ⟨h, p, hp⟩
  · refine ⟨⟨fun p hp => ?_, h.newValue, h.value⟩, _, rfl⟩
    obtain rfl := some.inj hp
    exact h.value hnone

variable [LinearOrder K]

def Walk.Good (P : Params K V) (m : Mem K V) : Walk K V → Prop
  | .insert i => i.Good P m
  | _ => True

/-- What a thread knows from its loads. -/
def Pc.Guard (P : Params K V) (m : Mem K V) : Pc K V → Prop
  | .idle _ => True
  | .loadNext w prev => m.Before P w.key prev ∧ w.Good P m
  | .getValue key target => m.At P key target
  | .loadValue i target | .casValue i target _ =>
    m.At P i.key target ∧ i.Good P m ∧ ∃ p, i.newValue = some p
  | .casNext i prev target =>
    m.Before P i.key prev ∧ (∀ b ∈ target, b ∈ m.bucket (P.index i.key) ∧ i.key < m.key b) ∧
      i.Good P m ∧ ∃ p, i.newEntry = some p

section Mono

variable (hle : Le P m m')

include hle

theorem Le.before (hprev : m.Before P key prev) : m'.Before P key prev := by
  rcases hprev with rfl | ⟨hmem, hlt⟩
  · exact .inl rfl
  · obtain ⟨hmem', hkey⟩ := hle _ (index_lt P key) prev hmem
    exact .inr ⟨hmem', hkey.symm ▸ hlt⟩

theorem Pc.Guard.mono {l : Pc K V} (h : l.Guard P m) : l.Guard P m' := by
  cases l with
  | idle => trivial
  | loadNext w prev =>
    refine ⟨hle.before h.1, ?_⟩
    cases w with
    | insert i => exact Insert.Good.mono hle h.2
    | has | get => trivial
  | getValue key target => exact hle.at h
  | loadValue | casValue => exact ⟨hle.at h.1, h.2.1.mono hle, h.2.2⟩
  | casNext i prev target =>
    refine ⟨hle.before h.1, fun b hb => ?_, h.2.2.1.mono hle, h.2.2.2⟩
    obtain ⟨hmem, hlt⟩ := h.2.1 b hb
    obtain ⟨hmem', hkey⟩ := hle _ (index_lt P i.key) b hmem
    exact ⟨hmem', hkey.symm ▸ hlt⟩

end Mono

/-! ### One transition -/

theorem Sound.le_link (h : Sound P m) {ptr : Option (Ptr V)} (hprev : m.Before P key prev)
    (hgt : ∀ b ∈ m.next prev, key < m.key b) : Le P m (m.link key ptr prev (m.next prev)) :=
  fun _ hi n hn => ⟨((h.bucket_link hprev hgt hi).2 n).mpr (.inl hn), (h.link_of_mem hi hn).1⟩

section Prog

variable [Inhabited V] {l l' : Pc K V} {a : Act K V}

theorem sound_prog (hs : Sound P m) (hl : l.Guard P m) (h : prog P m l a = some (m', l')) :
    Sound P m' ∧ Le P m m' := by
  revert h
  fun_cases prog P m l a <;> rintro ⟨⟩
  case case17 i target _ =>
    obtain ⟨-, -, p, hp⟩ := hl
    rw [hp]
    exact ⟨hs.setValue, le_refl m⟩
  case case19 i prev _ =>
    obtain ⟨hprev, hgt, -, p, hp⟩ := hl
    rw [hp]
    have hgt' : ∀ b ∈ m.next prev, i.key < m.key b := fun b hb => (hgt b hb).2
    exact ⟨hs.link hprev hgt', hs.le_link hprev hgt'⟩
  all_goals exact ⟨hs, le_refl m⟩

theorem guard_prog (hs : Sound P m) (hl : l.Guard P m) (h : prog P m l a = some (m', l')) :
    l'.Guard P m' := by
  revert h
  fun_cases prog P m l a <;> rintro ⟨⟩
  case case1 | case2 => exact ⟨.inl rfl, True.intro⟩
  case case3 | case4 | case5 => exact ⟨.inl rfl, nofun, nofun, fun _ => rfl⟩
  case case8 key prev _ target hfind =>
    rw [findHas_eq_find] at hfind
    exact ⟨hs.before_of_find hl.1 hfind, True.intro⟩
  case case9 key prev _ target hfind => exact hs.at_of_find hl.1 hfind
  case case11 key prev _ target hfind => exact ⟨hs.before_of_find hl.1 hfind, True.intro⟩
  case case13 i prev addr target hfind =>
    have hat : m.At P i.key target := hs.at_of_find hl.1 hfind
    rw [Pc.Guard, key_makeValue]
    exact ⟨hat, Insert.Good.makeValue hl.2 hat addr⟩
  case case14 i prev addr target hfind =>
    rw [Pc.Guard, key_makeEntry]
    exact ⟨hl.1, (hs.next_of_find hl.1 hfind).2,
      Insert.Good.makeEntry hl.2 (hs.not_at_of_find hl.1 hfind) addr⟩
  case case15 i prev _ target hfind => exact ⟨hs.before_of_find hl.1 hfind, hl.2⟩
  case case16 => exact hl
  case case18 => exact ⟨.inl rfl, hl.2.1⟩
  case case20 => exact ⟨.inl rfl, hl.2.2.1⟩
  all_goals exact True.intro

/-- **Each transition is a run of the finite map.** The last load or exchange of a call is its
effect and its return; the others change nothing. -/
theorem atomicRun_prog (hs : Sound P m) (hl : l.Guard P m) (h : prog P m l a = some (m', l')) :
    AtomicRun apply (m.lookup P) l.status (events l a l') (m'.lookup P) l'.status := by
  revert h
  fun_cases prog P m l a <;> rintro ⟨⟩
  case case1 | case2 | case3 | case4 | case5 => exact .call _
  case case6 key prev _ target hfind =>
    rw [findHas_eq_find] at hfind
    have hsome := hs.isSome_lookup_iff.mpr ⟨target, hs.at_of_find hl.1 hfind⟩
    exact .effect_ret (congrArg (fun found => (m.lookup P, Result.has found)) hsome)
  case case7 key prev _ target hfind =>
    rw [findHas_eq_find] at hfind
    have hnone : m.lookup P key = none := Sound.lookup_of_not_at (hs.not_at_of_find hl.1 hfind)
    exact .effect_ret (by simp only [Walk.op, apply, hnone, isSome_none])
  case case10 key prev _ target hfind =>
    have hnone : m.lookup P key = none := Sound.lookup_of_not_at (hs.not_at_of_find hl.1 hfind)
    exact .effect_ret (by simp only [Walk.op, apply, hnone, isSome_none])
  case case12 key target _ =>
    have hsome := hs.isSome_lookup_iff.mpr ⟨target, hl⟩
    rw [← hs.lookup_of_at hl]
    exact .effect_ret (by simp only [apply, hsome])
  case case13 i prev addr target hfind =>
    simp only [Pc.status, key_makeValue, arg_makeValue]
    exact .silent
  case case14 i prev addr target hfind =>
    simp only [Pc.status, key_makeEntry, arg_makeEntry]
    exact .silent
  case case17 i target _ =>
    obtain ⟨hat, hgood, p, hp⟩ := hl
    obtain ⟨hvalue, -⟩ := hgood.newValue p hp
    rw [hp, hs.lookup_setValue hat, hvalue]
    exact .effect_ret rfl
  case case19 i prev _ =>
    obtain ⟨hprev, hgt, hgood, p, hp⟩ := hl
    rw [hp, hs.lookup_link hprev fun b hb => (hgt b hb).2, hgood.newEntry p hp]
    exact .effect_ret rfl
  all_goals exact .silent

end Prog

/-! ### Runs -/

section Runs

variable {T : Type*} {s s' : State K V T}

/-- The invariant of the map. -/
structure Inv (P : Params K V) (s : State K V T) : Prop where
  sound : Sound P s.mem
  guard : ∀ t, (s.pc t).Guard P s.mem

theorem inv_init [Zero K] (P : Params K V) : Inv P (init P T) := ⟨sound_init P, fun _ => trivial⟩

variable [DecidableEq T] [Inhabited V]

theorem Inv.step_le (h : Inv P s) {e : T × Act K V} (hstep : step P s e = some s') :
    Inv P s' ∧ Le P s.mem s'.mem := by
  obtain ⟨t, a⟩ := e
  obtain ⟨m, l, hp, rfl⟩ := step_eq_some.mp hstep
  obtain ⟨hsound, hle⟩ := sound_prog h.sound (h.guard t) hp
  refine ⟨⟨hsound, ?_⟩, hle⟩
  exact forall_guard_step (G := fun m l => l.Guard P m) hstep
    (fun _ _ hp => guard_prog h.sound (h.guard t) hp) fun u _ => (h.guard u).mono hle

/-- **No key is lost.** The keys with an entry keep it. -/
theorem Inv.isSome_of_exec (h : Inv P s) {es : List (T × Act K V)}
    (hexec : exec (step P) s es = some s') (hkey : (s.mem.lookup P key).isSome = true) :
    (s'.mem.lookup P key).isSome = true := by
  obtain ⟨n, hn⟩ := h.sound.isSome_lookup_iff.mp hkey
  have hinv : Inv P s' ∧ s'.mem.At P key n := by
    refine exec_invariant (fun z => Inv P z ∧ z.mem.At P key n) ?_ ⟨h, hn⟩ hexec
    rintro z e z' ⟨hz, hat⟩ hstep
    obtain ⟨hz', hle⟩ := hz.step_le hstep
    exact ⟨hz', hle.at hat⟩
  exact hinv.1.sound.isSome_lookup_iff.mpr ⟨n, hinv.2⟩

theorem inv_of_exec [Zero K] {es : List (T × Act K V)}
    (h : exec (step P) (init P T) es = some s) : Inv P s :=
  exec_invariant (Inv P) (fun _ _ _ hs hstep => (hs.step_le hstep).1) (inv_init P) h

/-- **The table is a finite map.** In every run, for every table size that is a power of two: the
links of each bucket lead through entries whose keys increase; a key that has an entry keeps it; and
the calls and returns are those of a map whose operations happen at one moment between their call
and their return, which the table stands for at the end. -/
theorem linearizable [Zero K] (P : Params K V) (es : List (T × Act K V)) (s : State K V T)
    (h : exec (step P) (init P T) es = some s) :
    (∀ i < P.tableSize, Chain s.mem.next (s.mem.next i) (s.mem.bucket i) ∧
      (s.mem.bucket i).Pairwise (s.mem.key · < s.mem.key ·)) ∧
    (∀ bs cs z, es = bs ++ cs → exec (step P) (init P T) bs = some z →
      ∀ key, (z.mem.lookup P key).isSome = true → (s.mem.lookup P key).isSome = true) ∧
    Linearizable apply (fun _ => none) (trace (step P) (threadEvents events) (init P T) es)
      (s.mem.lookup P) := by
  have hinv := inv_of_exec h
  refine ⟨fun i hi => ?_, ?_, ?_⟩
  · have hchain := hinv.sound.chain i hi
    exact ⟨hchain.chain.2, hchain.sorted⟩
  · rintro bs cs z rfl hz key hkey
    obtain ⟨z', hz', hcs⟩ := exec_append_eq_some.mp h
    obtain rfl := some.inj (hz.symm.trans hz')
    exact (inv_of_exec hz).isSome_of_exec hcs hkey
  · have hempty : (init P T : State K V T).mem.lookup P = fun _ => none :=
      funext fun key => Sound.lookup_of_not_at fun n hn => by
        have hnil := hn.1
        rw [show (init P T : State K V T).mem = Mem.init P from rfl, bucket_init] at hnil
        cases hnil
    have hlin := linearizable_of_exec (Mem.lookup P) Pc.status (Inv P)
      (fun _ _ _ hs hstep => (hs.step_le hstep).1)
      (fun s t _ _ _ hs hp => atomicRun_prog hs.sound (hs.guard t) hp) (inv_init P)
      (fun _ => rfl) h
    rwa [hempty] at hlin

end Runs

/-- A table of two buckets for `int64_t` keys. -/
def twoBuckets : Params ℤ ℕ := ⟨2, ⟨1, rfl⟩, fun key => (key % 2 ^ 64).toNat, id⟩

/-- Both threads find that the key `-3` has no entry; thread `1` links its entry first, so thread
`0` tries again and replaces the value. -/
def bothInsert : List (ℕ × Act ℤ ℕ) :=
  [(0, .setMove (-3) 7), (1, .setCopy (-3) 8), (0, .step 100), (1, .step 200), (1, .step 0),
    (0, .step 0), (0, .step 300), (0, .step 0), (0, .step 0)]

theorem linearizable_bothInsert :
    ∃ s : State ℤ ℕ ℕ, s.mem.lookup twoBuckets (-3) = some 7 ∧
      s.pc 0 = .idle (some .set) ∧ s.pc 1 = .idle (some .set) ∧
      Linearizable apply (fun _ => none)
        (trace (step twoBuckets) (threadEvents events) (init twoBuckets ℕ) bothInsert)
        (s.mem.lookup twoBuckets) := by
  obtain ⟨s, hs, hlookup, h₀, h₁⟩ :
      ∃ s, exec (step twoBuckets) (init twoBuckets ℕ) bothInsert = some s ∧
      s.mem.lookup twoBuckets (-3) = some 7 ∧ s.pc 0 = .idle (some .set) ∧
      s.pc 1 = .idle (some .set) := by decide +kernel
  exact ⟨s, hlookup, h₀, h₁, (linearizable twoBuckets bothInsert s hs).2.2⟩

end Cyber.AtomicHashMap
