import Notebook.ShmTest.ShmManager

/-!
# Reading a configuration

`ShmConfig::ParseConfig` (`shm_src/shm_config.cpp`) goes through the entries of a configuration file
and stores the block size and the block count of each topic, both limited from above, in a map that
keeps the first of several entries for one topic. An entry in which a key is missing is skipped.

The loop counts in a `uint8_t`, which it compares with the number of entries. With more than `255`
entries the counter wraps around before it gets there, and the loop starts again with the first
entry. With fewer it is the fold of its rounds over the entries.
-/

open Interleaving Container List Option

namespace ShmTest

/-! ### The loop -/

/-- Where `ParseConfig` is: in its loop, out of it by an exception, or at its end. -/
inductive Parsed
  | running
  | threw
  | returned (propMap : Map String ShmQosProp)

/-- The loop of `ParseConfig` from the counter `i` on, for so many rounds. -/
def parseLoop (nodes : List ConfigNode) : ℕ → ℕ → Map String ShmQosProp → Parsed
  | 0, _, _ => .running
  | rounds + 1, i, propMap =>
    if hi : i < nodes.length then
      match parseNode propMap nodes[i] with
      | none => .threw
      -- `++i` on a `uint8_t`
      | some propMap => parseLoop nodes rounds ((i + 1) % 2 ^ 8) propMap
    else .returned propMap

/-! ### Entries -/

namespace ConfigNode

variable (node : ConfigNode)

/-- The topic, the block size and the block count of an entry that has all keys. -/
def complete : Option (String × ℕ × ℕ) := do
  let topicName ← node.topicName
  let shareMemory ← node.shareMemory
  let blockSize ← shareMemory.blockSize
  let blockCount ← shareMemory.blockCount
  return (topicName, blockSize, blockCount)

/-- The numbers of a complete entry fit the types they are converted to. -/
def Fits : Prop :=
  ∀ e ∈ node.complete, e.2.1 < 2 ^ 64 ∧ e.2.2 < 2 ^ 32
deriving Decidable

/-- What the map should hold for `topic` by this entry: a complete entry for the topic, with its
numbers limited. -/
def prop (topic : String) (node : ConfigNode) : Option ShmQosProp :=
  node.complete.bind fun e =>
    if e.1 = topic then some ⟨topic, min maxBlockSize e.2.1, min maxBlockCount e.2.2⟩ else none

end ConfigNode

section Rounds

variable {nodes : List ConfigNode} {node : ConfigNode} {propMap propMap' : Map String ShmQosProp}
  {topic : String} {i rounds : ℕ}

theorem parseNode_eq (propMap : Map String ShmQosProp) (node : ConfigNode) :
    parseNode propMap node =
      match node.complete with
      | none => some propMap
      | some (topicName, blockSize, blockCount) =>
        if blockSize < 2 ^ 64 ∧ blockCount < 2 ^ 32 then
          some (if topicName ∈ propMap then propMap else propMap.insert topicName
            ⟨topicName, min maxBlockSize blockSize, min maxBlockCount blockCount⟩)
        else none := by
  obtain ⟨_ | topicName, _ | ⟨_ | blockSize, _ | blockCount⟩⟩ := node <;> rfl

theorem parseNode_isSome_iff (propMap : Map String ShmQosProp) :
    (parseNode propMap node).isSome = true ↔ node.Fits := by
  rw [parseNode_eq]
  cases h : node.complete with
  | none | some => simp [ConfigNode.Fits, h]

/-- A round keeps the entry of a topic that has one, and stores its own entry otherwise. -/
theorem lookup_of_parseNode (h : parseNode propMap node = some propMap') :
    propMap'.lookup topic = (propMap.lookup topic).or (node.prop topic) := by
  rw [parseNode_eq] at h
  cases hcomplete : node.complete with
  | none =>
    rw [hcomplete] at h
    obtain rfl := some.inj h
    simp [ConfigNode.prop, hcomplete]
  | some e =>
    obtain ⟨topicName, blockSize, blockCount⟩ := e
    rw [hcomplete] at h
    simp only [ite_none_right_eq_some, some.injEq] at h
    obtain ⟨-, rfl⟩ := h
    by_cases heq : topicName = topic
    · subst heq
      split_ifs with hmem
      · obtain ⟨prop, hprop⟩ := isSome_iff_exists.mp (AList.lookup_isSome.mpr hmem)
        simp [hprop]
      · simp [AList.lookup_eq_none.mpr hmem, ConfigNode.prop, hcomplete]
    · have hnone : node.prop topic = none := by simp [ConfigNode.prop, hcomplete, heq]
      rw [hnone, or_none]
      split_ifs
      · rfl
      · exact AList.lookup_insert_ne (Ne.symm heq)

/-- All rounds: the map holds what it held before, and the first complete entry otherwise. -/
theorem lookup_of_foldlM (h : nodes.foldlM parseNode propMap = some propMap') :
    propMap'.lookup topic =
      (propMap.lookup topic).or (nodes.findSome? (ConfigNode.prop topic)) := by
  induction nodes generalizing propMap with
  | nil =>
    obtain rfl := some.inj h
    simp
  | cons node nodes ih =>
    rw [foldlM_cons] at h
    obtain ⟨propMap₁, hround, hrest⟩ := bind_eq_some_iff.mp h
    rw [ih hrest, lookup_of_parseNode hround, List.findSome?_cons, Option.or_assoc]
    cases node.prop topic <;> rfl

theorem foldlM_isSome_iff (propMap : Map String ShmQosProp) :
    (nodes.foldlM parseNode propMap).isSome = true ↔ ∀ node ∈ nodes, node.Fits := by
  induction nodes generalizing propMap with
  | nil => simp
  | cons node nodes ih =>
    rw [foldlM_cons, forall_mem_cons, ← parseNode_isSome_iff propMap]
    cases hround : parseNode propMap node with
    | none => simp
    | some propMap₁ => simp [ih propMap₁]

/-! ### The counter -/

/-- With more than `255` entries the counter is always below their number, and the loop does not
end. -/
theorem parseLoop_ne_returned (hlength : 255 < nodes.length) (hi : i < 2 ^ 8) :
    parseLoop nodes rounds i propMap ≠ .returned propMap' := by
  induction rounds generalizing i propMap with
  | zero => exact Parsed.noConfusion
  | succ rounds ih =>
    rw [parseLoop, dif_pos (by omega)]
    split
    · exact Parsed.noConfusion
    · exact ih (Nat.mod_lt _ (by decide))

/-- With at most `255` entries the loop goes through those from the counter on. -/
theorem foldlM_of_parseLoop (hlength : nodes.length ≤ 255) (hi : i ≤ nodes.length)
    (h : parseLoop nodes rounds i propMap = .returned propMap') :
    (nodes.drop i).foldlM parseNode propMap = some propMap' := by
  induction rounds generalizing i propMap with
  | zero => cases h
  | succ rounds ih =>
    rw [parseLoop] at h
    split at h
    · rename_i hlt
      split at h
      · cases h
      · rename_i propMap₁ hround
        rw [Nat.mod_eq_of_lt (by omega)] at h
        rw [drop_eq_getElem_cons hlt, foldlM_cons, hround]
        exact ih hlt h
    · rename_i hge
      obtain rfl := Parsed.returned.inj h
      rw [drop_eq_nil_of_le (by omega)]
      rfl

theorem parseLoop_of_foldlM (hlength : nodes.length ≤ 255) (hrounds : i + rounds = nodes.length)
    (h : (nodes.drop i).foldlM parseNode propMap = some propMap') :
    parseLoop nodes (rounds + 1) i propMap = .returned propMap' := by
  induction rounds generalizing i propMap with
  | zero =>
    rw [drop_eq_nil_of_le (by omega)] at h
    obtain rfl := some.inj h
    rw [parseLoop, dif_neg (by omega)]
  | succ rounds ih =>
    have hlt : i < nodes.length := by omega
    rw [drop_eq_getElem_cons hlt, foldlM_cons] at h
    obtain ⟨propMap₁, hround, hrest⟩ := bind_eq_some_iff.mp h
    rw [parseLoop, dif_pos hlt, hround]
    simp only
    rw [Nat.mod_eq_of_lt (by omega)]
    exact ih (by omega) hrest

/-- **The loop with its counter.** It ends with a map exactly when `parseConfig` gives this map. -/
theorem parseLoop_eq_returned_iff :
    (∃ rounds, parseLoop nodes rounds 0 propMap = .returned propMap') ↔
      parseConfig propMap nodes = some propMap' := by
  rw [parseConfig]
  split
  · rename_i hlength
    refine ⟨fun ⟨rounds, h⟩ => absurd h (parseLoop_ne_returned hlength (by decide)), fun h => ?_⟩
    cases h
  · rename_i hlength
    refine ⟨fun ⟨rounds, h⟩ => foldlM_of_parseLoop (by omega) (Nat.zero_le _) h, fun h => ?_⟩
    exact ⟨nodes.length + 1, parseLoop_of_foldlM (by omega) (zero_add _) h⟩

end Rounds

/-- **Which configurations are read.** `ParseConfig` returns, and the map holds the first complete
entry of every topic with its numbers limited and nothing else, exactly when there are at most `255`
entries and the numbers of the complete ones fit their types. -/
theorem parsed_iff (nodes : List ConfigNode) :
    (∃ rounds propMap, parseLoop nodes rounds 0 ∅ = .returned propMap ∧
      ∀ topic, propMap.lookup topic = nodes.findSome? (ConfigNode.prop topic)) ↔
    nodes.length ≤ 255 ∧ ∀ node ∈ nodes, node.Fits := by
  constructor
  · rintro ⟨rounds, propMap, hloop, -⟩
    have hparsed := parseLoop_eq_returned_iff.mp ⟨rounds, hloop⟩
    rw [parseConfig] at hparsed
    split at hparsed
    · cases hparsed
    · rename_i hlength
      exact ⟨by omega, (foldlM_isSome_iff ∅).mp (isSome_iff_exists.mpr ⟨propMap, hparsed⟩)⟩
  · rintro ⟨hlength, hfits⟩
    obtain ⟨propMap, hfold⟩ := isSome_iff_exists.mp ((foldlM_isSome_iff ∅).mpr hfits)
    have hparsed : parseConfig ∅ nodes = some propMap := by rwa [parseConfig, if_neg (by omega)]
    obtain ⟨rounds, hloop⟩ := parseLoop_eq_returned_iff.mpr hparsed
    refine ⟨rounds, propMap, hloop, fun topic => ?_⟩
    rw [lookup_of_foldlM hfold, AList.lookup_empty, none_or]

/-- An entry without keys. -/
def emptyNode : ConfigNode := ⟨none, none⟩

/-- A configuration of `256` entries is not read, even when all of them are to be skipped. -/
theorem not_parsed_many :
    (∀ node ∈ List.replicate 256 emptyNode, node.Fits) ∧ ∀ rounds propMap,
      parseLoop (List.replicate 256 emptyNode) rounds 0 ∅ ≠ .returned propMap := by
  refine ⟨fun node hnode => ?_, fun rounds propMap => ?_⟩
  · rw [eq_of_mem_replicate hnode]
    decide
  · exact parseLoop_ne_returned (by rw [length_replicate]; decide) (by decide)

end ShmTest
