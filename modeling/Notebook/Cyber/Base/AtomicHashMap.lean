import Notebook.Container.Chain
import Notebook.Interleaving.Linearization

/-!
# The atomic hash map

`AtomicHashMap` (`base/atomic_hash_map.h`) is a hash table with a fixed number of buckets that any
number of threads use without a lock. A bucket is a linked list of entries behind a head entry,
sorted by their keys. Entries are inserted with a compare-exchange on the link before them, values
are replaced with a compare-exchange on the pointer to them, and nothing is ever removed.

The model has one transition for each load and each compare-exchange of a link or a value pointer.
The entries are numbered, those of the bucket heads first. An entry that is not linked yet is a
local of its thread. A pointer to a value has the address that the allocator has given, which may be
given out again and is what a compare-exchange compares, and the value it was made for; that the
value may have been reclaimed when `Get` returns is left aside.

## Main definitions

* `prog` — `Has`, `Get` and `Set`, one load or exchange at a time.
* `Mem.lookup` — the finite map that the table stands for.
* `Sound` — every bucket is a sorted chain of entries of its own keys.

## Main results

* `Sound.lookup_link`, `Sound.lookup_setValue` — a successful exchange sets one key of the map.
-/

open Container Interleaving Function List

namespace Cyber.AtomicHashMap

variable {K V : Type*}

/-! ### The code -/

/-- The template arguments: the table size, which is a power of two, and what the code needs of the
types: how a key converts to a `uint64_t`, and what an object holds after its value was moved to
another one. -/
structure Params (K V : Type*) where
  tableSize : ℕ
  isPowerOfTwo : ∃ k, tableSize = 2 ^ k
  toUint64 : K → ℕ
  movedFrom : V → V

/-- `key & mode_num_` -/
def Params.index (P : Params K V) (key : K) : ℕ := P.toUint64 key &&& (P.tableSize - 1)

/-- A pointer to a value. -/
structure Ptr (V : Type*) where
  addr : ℕ
  value : V
deriving DecidableEq, Repr

/-- The fields of the entries, and the number of the next entry. -/
structure Mem (K V : Type*) where
  key : ℕ → K
  valuePtr : ℕ → Option (Ptr V)
  next : ℕ → Option ℕ
  fresh : ℕ

/-- `AtomicHashMap()`: the head entry of each bucket. -/
def Mem.init [Zero K] (P : Params K V) : Mem K V :=
  ⟨fun _ => 0, fun _ => none, fun _ => none, P.tableSize⟩

/-- The locals of `Insert`: the object with the value, which `move` allows to be moved from, and
`new_entry` and `new_value`, where an entry is given by its value pointer. `arg` records the value
that the call was made with. -/
structure Insert (K V : Type*) where
  key : K
  arg : V
  value : V
  move : Bool
  newEntry : Option (Ptr V)
  newValue : Option (Ptr V)
deriving DecidableEq, Repr

/-- `Insert` at its start. -/
def Insert.start (key : K) (value : V) (move : Bool) : Insert K V :=
  ⟨key, value, value, move, none, none⟩

/-- `if (!new_value) new_value = new V(value)`, at the address `addr`. -/
def Insert.makeValue (P : Params K V) (i : Insert K V) (addr : ℕ) : Insert K V :=
  match i.newValue with
  | some _ => i
  | none =>
    { i with
      newValue := some ⟨addr, i.value⟩
      value := if i.move then P.movedFrom i.value else i.value }

/-- `if (!new_entry) new_entry = new Entry(key, value)`, with the value at the address `addr`. The
value is copied also where the call may move it. -/
def Insert.makeEntry (i : Insert K V) (addr : ℕ) : Insert K V :=
  match i.newEntry with
  | some _ => i
  | none => { i with newEntry := some ⟨addr, i.value⟩ }

/-- What a walk along a list finds with one load. -/
inductive Found
  | hit (target : ℕ)
  | miss (target : Option ℕ)
  | advance (target : ℕ)
deriving DecidableEq, Repr

section Walks

variable [LinearOrder K] (m : Mem K V) (key : K) (prev : ℕ)

/-- The loop of `Find`, with `prev` the entry whose link is loaded next. -/
def Mem.find : Found :=
  match m.next prev with
  | none => .miss none
  | some target =>
    if m.key target = key then .hit target
    else if key < m.key target then .miss (some target)
    else .advance target

/-- The loop of `Has`. -/
def Mem.findHas : Found :=
  match m.next prev with
  | none => .miss none
  | some target =>
    if m.key target < key then .advance target
    else if m.key target = key then .hit target
    else .miss (some target)

theorem findHas_eq_find : m.findHas key prev = m.find key prev := by
  unfold Mem.findHas Mem.find
  split
  · rfl
  · rename_i target _
    rcases lt_trichotomy (m.key target) key with hlt | heq | hgt
    · simp [hlt, hlt.ne, hlt.not_gt]
    · simp [heq]
    · simp [hgt, hgt.ne', hgt.not_gt]

end Walks

/-- A function that walks along a list. -/
inductive Walk (K V : Type*)
  | has (key : K)
  | get (key : K)
  | insert (locals : Insert K V)
deriving DecidableEq, Repr

/-- The key that a walk looks for. -/
def Walk.key : Walk K V → K
  | .has key | .get key => key
  | .insert i => i.key

/-- What a call returned. -/
inductive Result (V : Type*)
  | set
  | get (found : Bool) (value : Option V)
  | has (found : Bool)
deriving DecidableEq, Repr

/-- The next load or exchange of a thread, with the locals of its call. -/
inductive Pc (K V : Type*)
  | idle (result : Option (Result V))
  | loadNext (walk : Walk K V) (prev : ℕ)
  | getValue (key : K) (target : ℕ)
  | loadValue (locals : Insert K V) (target : ℕ)
  | casValue (locals : Insert K V) (target : ℕ) (oldAddr : Option ℕ)
  | casNext (locals : Insert K V) (prev : ℕ) (target : Option ℕ)
deriving DecidableEq, Repr

/-- What a thread does next: call a function of the map, or make its next load or exchange, where
the allocator gives the address `addr` if the code after it makes a value. -/
inductive Act (K V : Type*)
  | has (key : K)
  | get (key : K)
  | setDefault (key : K)
  | setCopy (key : K) (value : V)
  | setMove (key : K) (value : V)
  | step (addr : ℕ)
deriving DecidableEq, Repr

/-- A value pointer is exchanged. -/
def Mem.setValue (m : Mem K V) (target : ℕ) (ptr : Option (Ptr V)) : Mem K V :=
  { m with valuePtr := update m.valuePtr target ptr }

/-- A new entry is linked in after `prev`, with the link to `target`. -/
def Mem.link (m : Mem K V) (key : K) (ptr : Option (Ptr V)) (prev : ℕ) (target : Option ℕ) :
    Mem K V where
  key := update m.key m.fresh key
  valuePtr := update m.valuePtr m.fresh ptr
  next := update (update m.next m.fresh target) prev (some m.fresh)
  fresh := m.fresh + 1

/-- The walk starts at the head of the bucket. -/
def Walk.start (P : Params K V) (w : Walk K V) : Pc K V := .loadNext w (P.index w.key)

/-- `Has`, `Get` and `Set`, one load or exchange at a time. The three functions `Set` differ in the
object that they make the value from. -/
def prog [LinearOrder K] [Inhabited V] (P : Params K V) (m : Mem K V) :
    Pc K V → Act K V → Option (Mem K V × Pc K V)
  | .idle _, .has key => some (m, (Walk.has key).start P)
  | .idle _, .get key => some (m, (Walk.get key).start P)
  | .idle _, .setDefault key => some (m, (Walk.insert (.start key default false)).start P)
  | .idle _, .setCopy key value => some (m, (Walk.insert (.start key value false)).start P)
  | .idle _, .setMove key value => some (m, (Walk.insert (.start key value true)).start P)
  | .loadNext (.has key) prev, .step _ =>
    match m.findHas key prev with
    | .hit _ => some (m, .idle (some (.has true)))
    | .miss _ => some (m, .idle (some (.has false)))
    | .advance target => some (m, .loadNext (.has key) target)
  | .loadNext (.get key) prev, .step _ =>
    match m.find key prev with
    | .hit target => some (m, .getValue key target)
    | .miss _ => some (m, .idle (some (.get false none)))
    | .advance target => some (m, .loadNext (.get key) target)
  | .getValue _ target, .step _ =>
    some (m, .idle (some (.get true ((m.valuePtr target).map Ptr.value))))
  | .loadNext (.insert i) prev, .step addr =>
    match m.find i.key prev with
    | .hit target => some (m, .loadValue (i.makeValue P addr) target)
    | .miss target => some (m, .casNext (i.makeEntry addr) prev target)
    | .advance target => some (m, .loadNext (.insert i) target)
  | .loadValue i target, .step _ =>
    some (m, .casValue i target ((m.valuePtr target).map Ptr.addr))
  | .casValue i target oldAddr, .step _ =>
    if (m.valuePtr target).map Ptr.addr = oldAddr then
      some (m.setValue target i.newValue, .idle (some .set))
    else some (m, (Walk.insert i).start P)
  | .casNext i prev target, .step _ =>
    if m.next prev = target then
      some (m.link i.key i.newEntry prev target, .idle (some .set))
    else some (m, (Walk.insert i).start P)
  | _, _ => none

/-- A map with the threads that use it. -/
abbrev State (K V T : Type*) : Type _ := Threads (Mem K V) T (Pc K V)

/-- A new map, with every thread outside it. -/
def init [Zero K] (P : Params K V) (T : Type*) : State K V T := ⟨.init P, fun _ => .idle none⟩

/-- One load or exchange of one thread. -/
abbrev step {T : Type*} [DecidableEq T] [LinearOrder K] [Inhabited V] (P : Params K V) :
    State K V T → T × Act K V → Option (State K V T) :=
  Threads.step (prog P)

/-! ### The finite map -/

/-- The operations of a map. -/
inductive Op (K V : Type*)
  | has (key : K)
  | get (key : K)
  | set (key : K) (value : V)
deriving DecidableEq, Repr

/-- A map whose operations happen one after the other. -/
def apply [DecidableEq K] (f : K → Option V) : Op K V → (K → Option V) × Result V
  | .has key => (f, .has (f key).isSome)
  | .get key => (f, .get (f key).isSome (f key))
  | .set key value => (update f key (some value), .set)

/-- The operation that an action calls. -/
def Act.op [Inhabited V] : Act K V → Option (Op K V)
  | .has key => some (.has key)
  | .get key => some (.get key)
  | .setDefault key => some (.set key default)
  | .setCopy key value | .setMove key value => some (.set key value)
  | .step _ => none

/-- The calls and returns of a thread. -/
def events [Inhabited V] (_ : Pc K V) (a : Act K V) (l' : Pc K V) :
    List (Event (Op K V) (Result V)) :=
  match a.op, l' with
  | some op, _ => [.call op]
  | none, .idle (some result) => [.ret result]
  | none, _ => []

/-- The operation that a walk is for. -/
def Walk.op : Walk K V → Op K V
  | .has key => .has key
  | .get key => .get key
  | .insert i => .set i.key i.arg

/-- Where a thread is in its operation of the map. -/
def Pc.status : Pc K V → Status (Op K V) (Result V)
  | .idle _ => .idle
  | .loadNext w _ => .called w.op
  | .getValue key _ => .called (.get key)
  | .loadValue i _ | .casValue i _ _ | .casNext i _ _ => .called (.set i.key i.arg)

/-- The entries of a bucket behind its head. -/
def Mem.bucket (m : Mem K V) (i : ℕ) : List ℕ := Chain.follow m.next m.fresh (m.next i)

/-- The map that the table stands for. -/
def Mem.lookup [DecidableEq K] (P : Params K V) (m : Mem K V) (key : K) : Option V :=
  ((m.bucket (P.index key)).find? fun n => decide (m.key n = key)).bind fun n =>
    (m.valuePtr n).map Ptr.value

/-! ### The table -/

theorem index_lt (P : Params K V) (key : K) : P.index key < P.tableSize := by
  obtain ⟨k, hk⟩ := P.isPowerOfTwo
  have hpos : 0 < P.tableSize := hk ▸ Nat.two_pow_pos k
  have hle : P.index key ≤ P.tableSize - 1 := Nat.and_le_right
  omega

variable [LinearOrder K] {P : Params K V} {m m' : Mem K V} {key : K} {prev n : ℕ}

/-- The meaning of the table: every bucket is a sorted chain of entries of its own keys, with
values, and the heads of the buckets come before these entries. -/
structure Sound (P : Params K V) (m : Mem K V) : Prop where
  tableSize_le : P.tableSize ≤ m.fresh
  chain : ∀ i < P.tableSize, SortedChain m.next m.key i (m.bucket i)
  entry : ∀ i < P.tableSize, ∀ n ∈ m.bucket i,
    P.tableSize ≤ n ∧ n < m.fresh ∧ P.index (m.key n) = i ∧ (m.valuePtr n).isSome = true

/-- The entry `n` is the one with the key. -/
def Mem.At (P : Params K V) (m : Mem K V) (key : K) (n : ℕ) : Prop :=
  n ∈ m.bucket (P.index key) ∧ m.key n = key

/-- A walk for the key may stand on the entry `prev`. -/
def Mem.Before (P : Params K V) (m : Mem K V) (key : K) (prev : ℕ) : Prop :=
  Container.Before m.key (P.index key) (m.bucket (P.index key)) key prev

theorem bucket_eq {i : ℕ} {l : List ℕ} (h : SortedChain m.next m.key i l)
    (hlt : ∀ n ∈ l, n < m.fresh) : m.bucket i = l := by
  have hnodup : l.Nodup := (nodup_cons.mp h.chain.nodup).2
  have hsub : l ⊆ List.range m.fresh := fun n hn => mem_range.mpr (hlt n hn)
  have hlen : l.length ≤ m.fresh := by simpa using (hnodup.subperm hsub).length_le
  exact Chain.follow_eq h.chain.2 hlen

omit [LinearOrder K] in
theorem bucket_init [Zero K] (P : Params K V) (i : ℕ) : (Mem.init P).bucket i = [] :=
  Chain.follow_eq (p := none) rfl (Nat.zero_le _)

theorem sound_init [Zero K] (P : Params K V) : Sound P (Mem.init P) where
  tableSize_le := le_rfl
  chain i _ := by
    rw [bucket_init]
    exact ⟨⟨rfl, rfl⟩, List.Pairwise.nil⟩
  entry i _ n hn := by
    rw [bucket_init] at hn
    cases hn

section Fields

omit [LinearOrder K]

variable {ptr : Option (Ptr V)}

theorem valuePtr_setValue_self : (m.setValue n ptr).valuePtr n = ptr := update_self ..

theorem valuePtr_setValue_of_ne {k : ℕ} (h : k ≠ n) :
    (m.setValue n ptr).valuePtr k = m.valuePtr k := update_of_ne h ..

end Fields

namespace Sound

variable (h : Sound P m)

include h

theorem chain_index (key : K) :
    SortedChain m.next m.key (P.index key) (m.bucket (P.index key)) :=
  h.chain _ (index_lt P key)

/-! ### What the table stands for -/

theorem lookup_of_at (hn : m.At P key n) : m.lookup P key = (m.valuePtr n).map Ptr.value := by
  rw [Mem.lookup, (h.chain_index key).find?_eq_some hn.1 hn.2]
  rfl

omit h in
theorem lookup_of_not_at (hn : ∀ n, ¬m.At P key n) : m.lookup P key = none := by
  have hfind : (m.bucket (P.index key)).find? (fun n => decide (m.key n = key)) = none :=
    find?_eq_none.mpr fun n hmem hkey => hn n ⟨hmem, of_decide_eq_true hkey⟩
  rw [Mem.lookup, hfind]
  rfl

theorem isSome_lookup_iff : (m.lookup P key).isSome = true ↔ ∃ n, m.At P key n := by
  constructor
  · intro hsome
    by_contra hnone
    rw [lookup_of_not_at (not_exists.mp hnone)] at hsome
    cases hsome
  · rintro ⟨n, hn⟩
    rw [h.lookup_of_at hn, Option.isSome_map]
    exact (h.entry _ (index_lt P key) n hn.1).2.2.2

theorem lookup_congr (h' : Sound P m')
    (hat : ∀ n, m.At P key n → m'.At P key n ∧ m'.valuePtr n = m.valuePtr n)
    (hat' : ∀ n, m'.At P key n → m.At P key n) : m'.lookup P key = m.lookup P key := by
  by_cases hex : ∃ n, m.At P key n
  · obtain ⟨n, hn⟩ := hex
    obtain ⟨hn', hvalue⟩ := hat n hn
    rw [h.lookup_of_at hn, h'.lookup_of_at hn', hvalue]
  · have hnone := not_exists.mp hex
    rw [lookup_of_not_at hnone, lookup_of_not_at fun n hn => hnone n (hat' n hn)]

/-! ### A value is exchanged -/

theorem setValue {ptr : Ptr V} : Sound P (m.setValue n (some ptr)) where
  tableSize_le := h.tableSize_le
  chain := h.chain
  entry i hi k hk := by
    obtain ⟨h₁, h₂, h₃, h₄⟩ := h.entry i hi k hk
    refine ⟨h₁, h₂, h₃, ?_⟩
    by_cases hkn : k = n
    · rw [hkn, valuePtr_setValue_self]
      rfl
    · rwa [valuePtr_setValue_of_ne hkn]

theorem lookup_setValue {ptr : Ptr V} (hn : m.At P key n) :
    (m.setValue n (some ptr)).lookup P =
      update (m.lookup P) key (some ptr.value) := by
  funext k
  by_cases hk : k = key
  · subst hk
    have hn' : (m.setValue n (some ptr)).At P k n := hn
    rw [h.setValue.lookup_of_at hn', update_self, valuePtr_setValue_self]
    rfl
  · rw [update_of_ne hk]
    refine h.lookup_congr h.setValue (fun a ha => ⟨ha, ?_⟩) fun a ha => ha
    exact valuePtr_setValue_of_ne fun han => hk (ha.2.symm.trans (han ▸ hn.2))

/-! ### An entry is linked in -/

theorem ne_of_bucket_ne {i j a b : ℕ} (hi : i < P.tableSize) (hj : j < P.tableSize) (hij : i ≠ j)
    (ha : a ∈ i :: m.bucket i) (hb : b ∈ j :: m.bucket j) : a ≠ b := by
  rintro rfl
  rcases mem_cons.mp ha with rfl | ha <;> rcases mem_cons.mp hb with rfl | hb
  · exact hij rfl
  · exact hi.not_ge (h.entry j hj _ hb).1
  · exact hj.not_ge (h.entry i hi _ ha).1
  · exact hij ((h.entry i hi a ha).2.2.1.symm.trans (h.entry j hj a hb).2.2.1)

theorem fresh_notMem {i : ℕ} (hi : i < P.tableSize) : m.fresh ∉ i :: m.bucket i := by
  intro hmem
  rcases mem_cons.mp hmem with heq | hmem
  · exact (heq ▸ hi).not_ge h.tableSize_le
  · exact lt_irrefl _ (h.entry i hi _ hmem).2.1

variable {ptr : Option (Ptr V)}

/-- A link at the end of a walk keeps every bucket a sorted chain. -/
theorem bucket_link (hprev : m.Before P key prev)
    (hgt : ∀ b ∈ m.next prev, key < m.key b) {j : ℕ} (hj : j < P.tableSize) :
    SortedChain (m.link key ptr prev (m.next prev)).next (m.link key ptr prev (m.next prev)).key j
        ((m.link key ptr prev (m.next prev)).bucket j) ∧
      ∀ a, a ∈ (m.link key ptr prev (m.next prev)).bucket j ↔
        a ∈ m.bucket j ∨ j = P.index key ∧ a = m.fresh := by
  have hindex := index_lt P key
  by_cases hji : j = P.index key
  · subst hji
    obtain ⟨l₁, l₂, hl, hchain⟩ :=
      (h.chain_index key).insert hprev hgt (h.fresh_notMem hindex)
    have hbucket : (m.link key ptr prev (m.next prev)).bucket (P.index key) =
        l₁ ++ m.fresh :: l₂ := by
      refine bucket_eq hchain fun n hn => Nat.lt_succ_iff.mpr ?_
      rw [mem_append, mem_cons] at hn
      rcases hn with hn | rfl | hn
      · exact (h.entry _ hindex n (hl ▸ mem_append_left _ hn)).2.1.le
      · exact le_rfl
      · exact (h.entry _ hindex n (hl ▸ mem_append_right _ hn)).2.1.le
    rw [hbucket]
    refine ⟨hchain, fun a => ?_⟩
    rw [hl, mem_append, mem_append, mem_cons]
    simp only [true_and]
    tauto
  · have hmem : prev ∈ P.index key :: m.bucket (P.index key) := by
      rcases hprev with rfl | ⟨hmem, -⟩
      · exact mem_cons_self
      · exact mem_cons_of_mem _ hmem
    have hfresh : ∀ a ∈ j :: m.bucket j, a ≠ m.fresh :=
      fun a ha haf => h.fresh_notMem hj (haf ▸ ha)
    have hchain : SortedChain (m.link key ptr prev (m.next prev)).next
        (m.link key ptr prev (m.next prev)).key j (m.bucket j) := by
      refine (h.chain j hj).congr (fun a ha => ?_) fun a ha =>
        update_of_ne (hfresh a (mem_cons_of_mem j ha)) ..
      have hne : a ≠ prev := h.ne_of_bucket_ne hj hindex hji ha hmem
      exact (update_of_ne hne ..).trans (update_of_ne (hfresh a ha) ..)
    have hbucket : (m.link key ptr prev (m.next prev)).bucket j = m.bucket j :=
      bucket_eq hchain fun n hn => Nat.lt_succ_of_lt (h.entry j hj n hn).2.1
    rw [hbucket]
    exact ⟨hchain, fun a => by simp [hji]⟩

variable {target : Option ℕ}

theorem link_of_mem {i a : ℕ} (hi : i < P.tableSize) (ha : a ∈ m.bucket i) :
    (m.link key ptr prev target).key a = m.key a ∧
      (m.link key ptr prev target).valuePtr a = m.valuePtr a := by
  have hne : a ≠ m.fresh := (h.entry i hi a ha).2.1.ne
  exact ⟨update_of_ne hne .., update_of_ne hne ..⟩

omit h [LinearOrder K] in
theorem link_fresh : (m.link key ptr prev target).key m.fresh = key ∧
      (m.link key ptr prev target).valuePtr m.fresh = ptr :=
  ⟨update_self .., update_self ..⟩

variable (hprev : m.Before P key prev)

include hprev

theorem link {ptr : Ptr V} (hgt : ∀ b ∈ m.next prev, key < m.key b) :
    Sound P (m.link key (some ptr) prev (m.next prev)) where
  tableSize_le := h.tableSize_le.trans (Nat.le_succ _)
  chain j hj := (h.bucket_link hprev hgt hj).1
  entry j hj a ha := by
    rcases ((h.bucket_link hprev hgt hj).2 a).mp ha with ha | ⟨rfl, rfl⟩
    · obtain ⟨h₁, h₂, h₃, h₄⟩ := h.entry j hj a ha
      obtain ⟨hkey, hvalue⟩ : (m.link key (some ptr) prev (m.next prev)).key a = m.key a ∧
          (m.link key (some ptr) prev (m.next prev)).valuePtr a = m.valuePtr a :=
        h.link_of_mem hj ha
      rw [hkey, hvalue]
      exact ⟨h₁, Nat.lt_succ_of_lt h₂, h₃, h₄⟩
    · rw [link_fresh.1, link_fresh.2]
      exact ⟨h.tableSize_le, Nat.lt_succ_self _, rfl, rfl⟩

theorem lookup_link {ptr : Ptr V} (hgt : ∀ b ∈ m.next prev, key < m.key b) :
    (m.link key (some ptr) prev (m.next prev)).lookup P =
      update (m.lookup P) key (some ptr.value) := by
  funext k
  have hmem (a : ℕ) : a ∈ (m.link key (some ptr) prev (m.next prev)).bucket (P.index k) ↔
      a ∈ m.bucket (P.index k) ∨ P.index k = P.index key ∧ a = m.fresh :=
    (h.bucket_link hprev hgt (index_lt P k)).2 a
  by_cases hk : k = key
  · subst hk
    have hat : (m.link k (some ptr) prev (m.next prev)).At P k m.fresh :=
      ⟨(hmem m.fresh).mpr (.inr ⟨rfl, rfl⟩), link_fresh.1⟩
    rw [(h.link hprev hgt).lookup_of_at hat, link_fresh.2, update_self]
    rfl
  · rw [update_of_ne hk]
    refine h.lookup_congr (h.link hprev hgt) (fun a ha => ?_) fun a ha => ?_
    · obtain ⟨hkey, hvalue⟩ := h.link_of_mem (index_lt P k) ha.1
      exact ⟨⟨(hmem a).mpr (.inl ha.1), hkey.trans ha.2⟩, hvalue⟩
    · rcases (hmem a).mp ha.1 with hold | ⟨-, rfl⟩
      · exact ⟨hold, (h.link_of_mem (index_lt P k) hold).1.symm.trans ha.2⟩
      · exact absurd (ha.2.symm.trans link_fresh.1) hk

/-! ### What a walk finds -/

theorem at_of_find {target : ℕ} (hfind : m.find key prev = .hit target) : m.At P key target := by
  unfold Mem.find at hfind
  split at hfind
  · cases hfind
  · rename_i b hnext
    split at hfind
    · rename_i hkey
      obtain rfl := Found.hit.inj hfind
      exact ⟨(h.chain_index key).mem_of_next hprev hnext, hkey⟩
    · split at hfind <;> cases hfind

theorem before_of_find {target : ℕ} (hfind : m.find key prev = .advance target) :
    m.Before P key target := by
  unfold Mem.find at hfind
  split at hfind
  · cases hfind
  · rename_i b hnext
    split at hfind
    · cases hfind
    · rename_i hne
      split at hfind
      · cases hfind
      · rename_i hle
        obtain rfl := Found.advance.inj hfind
        exact .inr ⟨(h.chain_index key).mem_of_next hprev hnext,
          lt_of_le_of_ne (not_lt.mp hle) hne⟩

/-- The link that ends a walk without success leads nowhere, or to an entry with a larger key. -/
theorem next_of_find (hfind : m.find key prev = .miss target) : m.next prev = target ∧
      ∀ b ∈ target, b ∈ m.bucket (P.index key) ∧ key < m.key b := by
  unfold Mem.find at hfind
  split at hfind
  · rename_i hnext
    obtain rfl := Found.miss.inj hfind
    exact ⟨hnext, fun b hb => by cases hb⟩
  · rename_i b hnext
    split at hfind
    · cases hfind
    · split at hfind
      · rename_i hlt
        obtain rfl := Found.miss.inj hfind
        refine ⟨hnext, fun c hc => ?_⟩
        obtain rfl := Option.some.inj hc
        exact ⟨(h.chain_index key).mem_of_next hprev hnext, hlt⟩
      · cases hfind

theorem not_at_of_find (hfind : m.find key prev = .miss target) (n : ℕ) : ¬m.At P key n := by
  obtain ⟨rfl, hgt⟩ := h.next_of_find hprev hfind
  intro hn
  exact (h.chain_index key).ne_of_next hprev (fun b hb => (hgt b hb).2) n hn.1 hn.2

end Sound

end Cyber.AtomicHashMap
