import Notebook.Container.Probing
import Notebook.Interleaving.Threads

/-!
# The ids of names

`GlobalData` (`common/global_data.cc`) gives every name of a node, channel, service or task an id:
`RegisterNode`, `RegisterChannel`, `RegisterService` and `RegisterTaskName` start from the hash of
the name and add one as long as the map of ids holds another name under the id, then they store the
name and return the id. `GetNodeById` and its likes read the map.

The four functions are one text over four maps. Each call to `Has`, `Get` and `Set` of the map is
atomic, but a name that `Has` did not find may have been stored by another thread before `Set`,
which then replaces it.

## Main definitions

* `register`, `getById` — the text of the functions.
* `Consistent` — names have ids of their own, keep them, and are found under them.
* `SetsFree` — a step stores no name over another name.

## Main results

* `exists_exec_call` — a call that runs alone returns and replaces no name.
* `register_consistent_iff` — the ids are consistent exactly while no name is replaced.
-/

open Interleaving Container Function List Option Threads

namespace Cyber.GlobalData

/-- What is registered. -/
inductive IdKind
  | node
  | channel
  | service
  | task
deriving DecidableEq, Repr

/-- One of the maps from ids to names. -/
abbrev IdMap : Type := Map UInt64 String

/-- The maps, and the calls that have returned with their ids. -/
structure Memory where
  idMap : IdKind → IdMap
  returned : List (IdKind × String × UInt64)

/-- Where a thread is: outside, or before `Has`, `Get` or `Set` of the id it is at. -/
inductive Pc
  | idle
  | has (kind : IdKind) (name : String) (id : UInt64)
  | get (kind : IdKind) (name : String) (id : UInt64)
  | set (kind : IdKind) (name : String) (id : UInt64)
deriving DecidableEq, Repr

/-- A thread calls a function, or goes on to the end of its next operation on the map. -/
inductive Action
  | call (kind : IdKind) (name : String)
  | go
deriving DecidableEq, Repr

/-- The calls of the four functions. -/
def registerNode (nodeName : String) : Action := .call .node nodeName

@[inherit_doc registerNode]
def registerChannel (channel : String) : Action := .call .channel channel

@[inherit_doc registerNode]
def registerService (service : String) : Action := .call .service service

@[inherit_doc registerNode]
def registerTaskName (taskName : String) : Action := .call .task taskName

/-- `Set` in the map of a kind, and the return from the call. -/
def Memory.store (m : Memory) (kind : IdKind) (name : String) (id : UInt64) : Memory where
  idMap := update m.idMap kind ((m.idMap kind).insert id name)
  returned := m.returned ++ [(kind, name, id)]

/-- The text of the four functions, where `hash` is `common::Hash`. -/
def register (hash : String → UInt64) (m : Memory) : Pc → Action → Option (Memory × Pc)
  | .idle, .call kind name => some (m, .has kind name (hash name))
  | .has kind name id, .go =>
    some (m, if id ∈ m.idMap kind then .get kind name id else .set kind name id)
  | .get kind name id, .go =>
    -- without an entry the pointer `name` is null and must not be read
    ((m.idMap kind).lookup id).map fun found =>
      (m, if name = found then .set kind name id else .has kind name (id + 1))
  | .set kind name id, .go => some (m.store kind name id, .idle)
  | _, _ => none

/-- The reverse lookup of the four functions `Get...ById`; an unknown id has the empty name. -/
def getById (m : Memory) (kind : IdKind) (id : UInt64) : String :=
  ((m.idMap kind).lookup id).getD ""

/-- `GetNodeById` -/
def getNodeById (m : Memory) (id : UInt64) : String := getById m .node id

/-- `GetChannelById` -/
def getChannelById (m : Memory) (id : UInt64) : String := getById m .channel id

/-- `GetServiceById` -/
def getServiceById (m : Memory) (id : UInt64) : String := getById m .service id

/-- `GetTaskNameById` -/
def getTaskNameById (m : Memory) (id : UInt64) : String := getById m .task id

/-! ### The invariant -/

/-- What users of the ids rely on: different names have different ids, a name has the same id in
all calls, and the reverse lookup of a returned id gives the name. -/
structure Consistent (m : Memory) : Prop where
  injective : ∀ kind name name' id,
    (kind, name, id) ∈ m.returned → (kind, name', id) ∈ m.returned → name = name'
  stable : ∀ kind name id id',
    (kind, name, id) ∈ m.returned → (kind, name, id') ∈ m.returned → id = id'
  lookup : ∀ kind name id, (kind, name, id) ∈ m.returned → getById m kind id = name

/-- A thread is not about to store its name over another name. -/
def Pc.SetsFree (m : Memory) : Pc → Prop
  | .set kind name id => ∀ found ∈ (m.idMap kind).lookup id, found = name
  | _ => True

instance (m : Memory) : (pc : Pc) → Decidable (pc.SetsFree m)
  | .idle | .has .. | .get .. => .isTrue trivial
  | .set kind name id =>
    inferInstanceAs (Decidable (∀ found ∈ (m.idMap kind).lookup id, found = name))

variable {T : Type*}

/-- The state before any call. -/
def init : Threads Memory T Pc := ⟨⟨fun _ => ∅, []⟩, fun _ => .idle⟩

/-- The thread that moves does not store its name over another name. -/
abbrev SetsFree (s : Threads Memory T Pc) (e : T × Action) : Prop := (s.pc e.1).SetsFree s.mem

variable (hash : String → UInt64)

/-- The search for the id of a name has come to `id`. -/
def Searched (m : Memory) (kind : IdKind) (name : String) (id : UInt64) : Prop :=
  Probed (· + 1) (m.idMap kind).lookup name (hash name) id

/-- What is known at each place of the program. -/
def Pc.Inv (m : Memory) : Pc → Prop
  | .idle => True
  | .has kind name id => Searched hash m kind name id
  | .get kind name id => Searched hash m kind name id
  | .set kind name id => Searched hash m kind name id

/-- The maps hold what has been returned, under the ids that the searches lead to. -/
structure Inv (s : Threads Memory T Pc) : Prop where
  returned_iff : ∀ kind name id,
    (kind, name, id) ∈ s.mem.returned ↔ (s.mem.idMap kind).lookup id = some name
  reached : ∀ kind, Reached (· + 1) hash (s.mem.idMap kind)
  pcs : ∀ t, (s.pc t).Inv hash s.mem

theorem inv_init : Inv hash (init (T := T)) where
  returned_iff := by simp [init]
  reached := by simp [init, Reached]
  pcs := fun _ => trivial

variable {hash}

theorem Inv.consistent {s : Threads Memory T Pc} (hs : Inv hash s) : Consistent s.mem where
  injective kind name name' id h h' := by
    rw [hs.returned_iff] at h h'
    exact some.inj (h.symm.trans h')
  stable kind name id id' h h' := by
    rw [hs.returned_iff] at h h'
    exact (hs.reached kind).key_unique h h'
  lookup kind name id h := by
    rw [hs.returned_iff] at h
    rw [getById, h, getD_some]

/-! ### Steps -/

@[simp] theorem idMap_store (m : Memory) (kind : IdKind) (name : String) (id : UInt64) :
    (m.store kind name id).idMap kind = (m.idMap kind).insert id name :=
  update_self ..

theorem idMap_store_of_ne (m : Memory) {kind kind' : IdKind} (h : kind' ≠ kind) (name : String)
    (id : UInt64) : (m.store kind name id).idMap kind' = m.idMap kind' :=
  update_of_ne h ..

variable {kind : IdKind} {name : String} {id : UInt64}

theorem lookup_store_mono {m : Memory} (hfree : ∀ found ∈ (m.idMap kind).lookup id, found = name)
    (kind' : IdKind) (id' : UInt64)
    (name' : String) (h : (m.idMap kind').lookup id' = some name') :
    ((m.store kind name id).idMap kind').lookup id' = some name' := by
  by_cases hkind : kind' = kind
  · subst hkind
    rw [idMap_store]
    exact lookup_insert_mono hfree id' name' h
  · rwa [idMap_store_of_ne m hkind]

theorem Pc.Inv.mono {m m' : Memory} {pc : Pc} (h : pc.Inv hash m)
    (hm : ∀ kind id name, (m.idMap kind).lookup id = some name →
      (m'.idMap kind).lookup id = some name) : pc.Inv hash m' := by
  cases pc with
  | idle => trivial
  | has kind name id => exact Probed.mono h (hm kind)
  | get kind name id => exact Probed.mono h (hm kind)
  | set kind name id => exact Probed.mono h (hm kind)

variable {s s' : Threads Memory T Pc} {t : T} {a : Action}

theorem Inv.store (hs : Inv hash s) (hthis : Searched hash s.mem kind name id)
    (hfree : ∀ found ∈ (s.mem.idMap kind).lookup id, found = name)
    (hmem : s'.mem = s.mem.store kind name id) (hpc' : ∀ u, (s'.pc u).Inv hash s.mem) :
    Inv hash s' := by
  refine ⟨fun kind' name' id' => ?_, fun kind' => ?_, fun u => ?_⟩
  · simp only [hmem, Memory.store, mem_append, mem_singleton, hs.returned_iff,
      Prod.mk.injEq]
    by_cases hkind : kind' = kind
    · subst hkind
      rw [update_self]
      by_cases hid : id' = id
      · subst hid
        simp only [true_and, and_true, AList.lookup_insert, some.injEq]
        exact ⟨fun h => h.elim (fun h => (hfree name' h).symm) Eq.symm, fun h => .inr h.symm⟩
      · simp only [hid, and_false, or_false, AList.lookup_insert_ne hid]
    · simp [hkind]
  · by_cases hkind : kind' = kind
    · subst hkind
      rw [hmem, idMap_store]
      exact (hs.reached kind').insert hthis hfree
    · rw [hmem, idMap_store_of_ne _ hkind]
      exact hs.reached kind'
  · rw [hmem]
    exact (hpc' u).mono (lookup_store_mono hfree)

variable [DecidableEq T]

/-- What a step can do: the thread moves on and leaves the memory alone, or it stores its name. -/
theorem register_cases (hs : Inv hash s) (h : Threads.step (register hash) s (t, a) = some s') :
    (s'.mem = s.mem ∧ (s'.pc t).Inv hash s.mem ∧ SetsFree s (t, a)) ∨
      ∃ kind name id, s.pc t = .set kind name id ∧ Searched hash s.mem kind name id ∧
        s'.mem = s.mem.store kind name id ∧ s'.pc t = .idle := by
  have hpc := hs.pcs t
  have hprog := prog_of_step h
  cases hl : s.pc t with
  | idle =>
    rw [hl] at hprog
    cases a with
    | call kind name =>
      obtain ⟨hmem, hpc'⟩ := Prod.mk.inj (some.inj hprog)
      refine .inl ⟨hmem.symm, ?_, by simp [SetsFree, hl, Pc.SetsFree]⟩
      rw [← hpc']
      exact Relation.ReflTransGen.refl
    | go => cases hprog
  | has kind name id =>
    rw [hl] at hprog hpc
    cases a with
    | call => cases hprog
    | go =>
      obtain ⟨hmem, hpc'⟩ := Prod.mk.inj (some.inj hprog)
      refine .inl ⟨hmem.symm, ?_, by simp [SetsFree, hl, Pc.SetsFree]⟩
      rw [← hpc']
      split_ifs <;> exact hpc
  | get kind name id =>
    rw [hl] at hprog hpc
    cases a with
    | call => cases hprog
    | go =>
      obtain ⟨found, hfound, heq⟩ := map_eq_some_iff.mp hprog
      obtain ⟨hmem, hpc'⟩ := Prod.mk.inj heq
      refine .inl ⟨hmem.symm, ?_, by simp [SetsFree, hl, Pc.SetsFree]⟩
      rw [← hpc']
      split_ifs with hname
      · exact hpc
      · exact Probed.pass hpc hfound (Ne.symm hname)
  | set kind name id =>
    rw [hl] at hprog hpc
    cases a with
    | call => cases hprog
    | go =>
      obtain ⟨hmem, hpc'⟩ := Prod.mk.inj (some.inj hprog)
      exact .inr ⟨kind, name, id, rfl, hpc, hmem.symm, hpc'.symm⟩

/-- A step that replaces no name keeps every name under the id that was returned. -/
theorem Inv.step (hs : Inv hash s) (hfree : SetsFree s (t, a))
    (h : Threads.step (register hash) s (t, a) = some s') : Inv hash s' := by
  rcases register_cases hs h with ⟨hmem, hpc', -⟩ |
    ⟨kind, name, id, hpc, hsearch, hmem, hidle⟩
  · refine ⟨hmem ▸ hs.returned_iff, hmem ▸ hs.reached, fun u => ?_⟩
    rw [hmem]
    by_cases hu : u = t
    · exact hu ▸ hpc'
    · rw [pc_of_ne h hu]
      exact hs.pcs u
  · rw [SetsFree, hpc] at hfree
    refine hs.store hsearch hfree hmem fun u => ?_
    by_cases hu : u = t
    · rw [hu, hidle]
      trivial
    · rw [pc_of_ne h hu]
      exact hs.pcs u

theorem Inv.not_consistent (hs : Inv hash s) (hfree : ¬SetsFree s (t, a))
    (h : Threads.step (register hash) s (t, a) = some s') : ¬Consistent s'.mem := by
  rcases register_cases hs h with ⟨-, -, hset⟩ | ⟨kind, name, id, hpc, -, hmem, -⟩
  · exact absurd hset hfree
  · simp only [SetsFree, hpc, Pc.SetsFree, not_forall] at hfree
    obtain ⟨found, hfound, hne⟩ := hfree
    intro hcons
    have hold : (kind, found, id) ∈ s'.mem.returned := by
      rw [hmem]
      exact mem_append_left _ ((hs.returned_iff kind found id).mpr hfound)
    have hnew : (kind, name, id) ∈ s'.mem.returned := by
      rw [hmem]
      exact mem_append_right _ (mem_singleton.mpr rfl)
    exact hne (hcons.injective kind found name id hold hnew)

/-! ### A call without overlap -/

/-- A call on a map that no other call uses. The taken ids are fewer than the trials, so the bound
on the search is reached only if every id is taken by another name and the code does not return. -/
def registerName (hash : String → UInt64) (m : IdMap) (name : String) : Option (UInt64 × IdMap) :=
  (probe (· + 1) m.lookup name (m.entries.length + 1) (hash name)).map fun id =>
    (id, m.insert id name)

theorem registerName_eq_some {m m' : IdMap} (h : registerName hash m name = some (id, m')) :
    Probed (· + 1) m.lookup name (hash name) id ∧ (∀ found ∈ m.lookup id, found = name) ∧
      m' = m.insert id name := by
  obtain ⟨id', hid', heq⟩ := map_eq_some_iff.mp h
  obtain ⟨rfl, rfl⟩ := Prod.mk.inj heq
  obtain ⟨hprobed, hend⟩ := probe_spec hid'
  exact ⟨hprobed, hend, rfl⟩

theorem iterate_add_one (id : UInt64) (i : ℕ) : (· + 1)^[i] id = id + UInt64.ofNat i := by
  induction i with
  | zero => simp
  | succ i ih =>
    rw [iterate_succ_apply', ih, UInt64.ofNat_add]
    exact UInt64.add_assoc _ _ _

theorem exists_registerName (hash : String → UInt64) (m : IdMap) (name : String)
    (hm : m.entries.length < 2 ^ 64) :
    ∃ id, registerName hash m name = some (id, m.insert id name) := by
  have hinj : Set.InjOn (fun i : ℕ => (· + 1)^[i] (hash name)) (Set.Iic m.entries.length) := by
    intro i hi j hj heq
    simp only [iterate_add_one, UInt64.add_right_inj] at heq
    have hnat : ∀ n ≤ m.entries.length, (UInt64.ofNat n).toNat = n := fun n hn =>
      UInt64.toNat_ofNat_of_lt' (lt_of_le_of_lt hn hm)
    rw [← hnat i hi, ← hnat j hj, heq]
  obtain ⟨id, hid⟩ := exists_probe m name (hash name) hinj
  exact ⟨id, by rw [registerName, hid, map_some]⟩

theorem exec_search (hash : String → UInt64) {m : Memory} {id id' : UInt64}
    (hprobed : Probed (· + 1) (m.idMap kind).lookup name id id')
    (hend : ∀ found ∈ (m.idMap kind).lookup id', found = name) :
    ∃ n, exec (fun r a => register hash r.1 r.2 a) (m, .has kind name id)
      (List.replicate n .go) = some (m.store kind name id', .idle) := by
  induction hprobed using Relation.ReflTransGen.head_induction_on with
  | refl =>
    cases hid : (m.idMap kind).lookup id' with
    | none =>
      have hnot : id' ∉ m.idMap kind := AList.lookup_eq_none.mp hid
      exact ⟨2, by simp [exec_cons, register, hnot]⟩
    | some found =>
      have hmem : id' ∈ m.idMap kind := AList.lookup_isSome.mp (hid ▸ rfl)
      have hfound : found = name := hend found hid
      exact ⟨3, by simp [exec_cons, register, hmem, hid, hfound]⟩
  | head hstep hprobed ih =>
    obtain ⟨⟨found, hfound, hne⟩, rfl⟩ := hstep
    obtain ⟨n, hn⟩ := ih
    have hmem := AList.lookup_isSome.mp (isSome_of_eq_some hfound)
    refine ⟨n + 2, ?_⟩
    simp only [replicate_succ, exec_cons, register, hmem, hfound, Ne.symm hne, if_true,
      if_false, map_some, bind_some]
    exact hn

theorem exec_call (hidle : s.pc t = .idle) (hsearch : Searched hash s.mem kind name id)
    (hend : ∀ found ∈ (s.mem.idMap kind).lookup id, found = name) :
    ∃ n, exec (Threads.step (register hash)) s
        ((t, .call kind name) :: List.replicate n (t, .go)) =
      some ⟨s.mem.store kind name id, s.pc⟩ := by
  obtain ⟨n, hn⟩ := exec_search hash hsearch hend
  have halone : exec (fun r a => register hash r.1 r.2 a) (s.mem, s.pc t)
      (.call kind name :: List.replicate n .go) = some (s.mem.store kind name id, .idle) := by
    rw [hidle]
    exact hn
  refine ⟨n, ?_⟩
  have hexec := exec_alone halone
  rw [← hidle, update_eq_self] at hexec
  simpa only [map_cons, map_replicate] using hexec

/-- **A call that runs alone returns**, from every state in which an id is left, and it replaces no
other name. -/
theorem exists_exec_call (name : String) (hidle : s.pc t = .idle)
    (hm : (s.mem.idMap kind).entries.length < 2 ^ 64) :
    ∃ id n, (∀ found ∈ (s.mem.idMap kind).lookup id, found = name) ∧
      exec (Threads.step (register hash)) s
          ((t, .call kind name) :: List.replicate n (t, .go)) =
        some ⟨s.mem.store kind name id, s.pc⟩ := by
  obtain ⟨id, hid⟩ := exists_registerName hash (s.mem.idMap kind) name hm
  obtain ⟨hprobed, hend, -⟩ := registerName_eq_some hid
  obtain ⟨n, hn⟩ := exec_call hidle hprobed hend
  exact ⟨id, n, hend, hn⟩

/-- The hash of the name is the last id, and taken: the search goes on at zero. -/
theorem exists_exec_call_at_last_id :
    ∃ s, exec (Threads.step (register fun _ => 18446744073709551615)) (init (T := Unit))
        [((), registerNode "a"), ((), .go), ((), .go)] = some s ∧
      getNodeById s.mem 18446744073709551615 = "a" ∧
      ∃ id n, exec (Threads.step (register fun _ => 18446744073709551615)) s
          (((), registerNode "b") :: List.replicate n ((), .go)) =
        some ⟨s.mem.store .node "b" id, s.pc⟩ := by
  refine exists_exec_mono (P := fun s => getNodeById s.mem 18446744073709551615 = "a" ∧
    s.pc () = .idle ∧ (s.mem.idMap .node).entries.length < 2 ^ 64) (by decide +kernel) ?_
  rintro s - ⟨hname, hidle, hlength⟩
  obtain ⟨id, n, -, hn⟩ := exists_exec_call "b" hidle hlength
  exact ⟨hname, id, n, hn⟩

/-! ### Runs -/

/-- A thread comes to `Set` from a look at the id: without a step of another thread in between the
name that it would replace is its own. -/
theorem register_setsFree {m m' : Memory} {pc pc' : Pc}
    (h : register hash m pc a = some (m', pc')) : pc'.SetsFree m' := by
  revert h
  fun_cases register hash m pc a with
  | case1 kind name =>
    rintro ⟨⟩
    trivial
  | case2 kind name id =>
    rintro ⟨⟩
    split_ifs with hmem
    · trivial
    · intro found hfound
      exact absurd (AList.lookup_isSome.mp (isSome_of_mem hfound)) hmem
  | case3 kind name id =>
    intro h
    obtain ⟨found, hfound, ⟨⟩⟩ := map_eq_some_iff.mp h
    split_ifs with hname
    · exact fun found' hfound' => (mem_unique hfound' hfound).trans hname.symm
    · trivial
  | case4 kind name id =>
    rintro ⟨⟩
    trivial
  | case5 => exact nofun

/-- Calls that no other call overlaps replace no name. -/
theorem allSteps_setsFree_of_alone (hidle : s.pc t = .idle) (as : List Action) :
    AllSteps (Threads.step (register hash)) SetsFree s (as.map (t, ·)) := by
  have hfree : (s.pc t).SetsFree s.mem := hidle ▸ trivial
  clear hidle
  induction as generalizing s with
  | nil => trivial
  | cons a as ih => exact ⟨hfree, fun s' h => ih (register_setsFree (prog_of_step h))⟩

/-- **Registration.** However the calls overlap, different names have different ids, a name keeps
its id and the reverse lookup finds the name, exactly as long as no `Set` replaces a name by
another one. In such a run a name that is registered again gets its id again. Calls that no other
call overlaps replace no name. -/
theorem register_consistent_iff {as : List (T × Action)}
    (h : exec (Threads.step (register hash)) init as = some s) :
    ((∀ bs, bs <+: as → ∀ s₁, exec (Threads.step (register hash)) init bs = some s₁ →
        Consistent s₁.mem) ↔
      AllSteps (Threads.step (register hash)) SetsFree init as) ∧
    (AllSteps (Threads.step (register hash)) SetsFree init as →
      ∀ kind name id t, (kind, name, id) ∈ s.mem.returned → s.pc t = .idle →
        ∃ n, exec (Threads.step (register hash)) s
            ((t, .call kind name) :: List.replicate n (t, .go)) =
          some ⟨s.mem.store kind name id, s.pc⟩) ∧
    ∀ t, s.pc t = .idle → ∀ calls : List Action,
      AllSteps (Threads.step (register hash)) SetsFree s (calls.map (t, ·)) := by
  have hinit : Inv hash (init (T := T)) := inv_init hash
  have hstep : ∀ s e s', Inv hash s → SetsFree s e →
      Threads.step (register hash) s e = some s' → Inv (T := T) hash s' :=
    fun s e s' hs hfree h => hs.step hfree h
  refine ⟨?_, ?_, fun t hidle calls => allSteps_setsFree_of_alone hidle calls⟩
  · exact forall_prefix_iff_allSteps (Inv hash) (fun s hs => hs.consistent) hstep
      (fun s e s' hs hfree h => hs.not_consistent hfree h) hinit h
  · intro hall kind name id t hret hidle
    have hs := exec_invariant_of_allSteps (Inv hash) hstep hinit hall h
    have hlookup := (hs.returned_iff kind name id).mp hret
    exact exec_call hidle (hs.reached kind id name hlookup)
      fun found hfound => some.inj (hfound.symm.trans hlookup)

/-- Two nodes with colliding names, registered one after the other. -/
theorem register_colliding_names : ∃ s, exec (Threads.step (register fun _ => 0)) (init (T := Bool))
    [(true, registerNode "a"), (true, .go), (true, .go),
      (false, registerNode "b"), (false, .go), (false, .go), (false, .go), (false, .go)] = some s ∧
    s.mem.returned = [(.node, "a", 0), (.node, "b", 1)] ∧ Consistent s.mem :=
  exists_exec_mono (P := fun s => s.mem.returned = [(.node, "a", 0), (.node, "b", 1)])
    (by decide +kernel) fun s hs hret => ⟨hret, (register_consistent_iff hs).1.mpr
      (by decide +kernel) _ (prefix_refl _) s hs⟩

/-- Two threads register different nodes at the same time: both find the id of their common hash
free, and both get it. The first name is lost. -/
theorem register_overlapping : ∃ s, exec (Threads.step (register fun _ => 0)) (init (T := Bool))
    [(true, registerNode "a"), (false, registerNode "b"), (true, .go), (false, .go),
      (true, .go), (false, .go)] = some s ∧
    s.mem.returned = [(.node, "a", 0), (.node, "b", 0)] ∧ getNodeById s.mem 0 = "b" := by
  decide +kernel

end Cyber.GlobalData
