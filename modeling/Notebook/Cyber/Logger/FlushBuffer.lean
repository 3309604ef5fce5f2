import Notebook.Container.NestedMap
import Mathlib.Data.List.Chain

/-!
# Routing of log messages

`AsyncLogger::FlushBuffer` (`src/logger/async_logger.cc`) writes the messages of a buffer to the log
files of modules. The module of a message is named by a tag in brackets, which
`FindModuleName` (`src/logger/logger_util.h`) looks up and removes from the text; a message without
a tag, or with an empty one, belongs to the process group.

The name of the module is a variable of `FlushBuffer` that is declared before the loop, and
`FindModuleName` assigns it only if it finds a tag or if the variable is empty. A message without a
tag therefore goes to the module of the message before it.
-/

open Container List Option

namespace Cyber.Logger

/-- A buffered message. -/
structure Msg where
  ts : ℤ
  message : List Char
  level : ℕ
deriving DecidableEq, Repr

/-! ### The code -/

/-- `std::string::find` of a character from a position. -/
def find (text : List Char) (c : Char) (pos : ℕ) : Option ℕ :=
  ((text.drop pos).findIdx? (· = c)).map (· + pos)

/-- `FindModuleName`: the text and the module after the call. -/
def findModuleName (processGroup logMessage moduleName : List Char) : List Char × List Char :=
  let found :=
    match find logMessage '[' 0 with
    | none => (logMessage, moduleName)
    | some lpos =>
      match find logMessage ']' lpos with
      | none => (logMessage, moduleName)
      | some rpos =>
        (logMessage.take lpos ++ logMessage.drop (rpos + 1),
          (logMessage.drop (lpos + 1)).take (rpos - lpos - 1))
  if found.2 = [] then (found.1, processGroup) else found

/-- The name of the log file of a module. -/
def fileName (logDir moduleName : List Char) : List Char :=
  let name := moduleName ++ ".log.INFO.".toList
  if logDir = [] then name else logDir ++ '/' :: name

/-- `module_logger_map_`: the file objects of modules, each of which has the file of its module. -/
structure ModuleLoggers (logDir : List Char) where
  files : Map (List Char) (List Char)
  file_eq : ∀ name file, files.lookup name = some file → file = fileName logDir name

/-- A call to `Write` of the file object of a file. -/
structure FileWrite where
  file : List Char
  forceFlush : Bool
  ts : ℤ
  text : List Char
deriving DecidableEq, Repr

variable {logDir : List Char}

/-- The file object of a module is made when the module is not in the map. -/
def ModuleLoggers.create (loggers : ModuleLoggers logDir) (name : List Char) :
    ModuleLoggers logDir :=
  if name ∈ loggers.files then loggers
  else
    { files := loggers.files.insert name (fileName logDir name)
      file_eq := fun name' file h => by
        by_cases hname : name' = name
        · subst hname
          simpa using h.symm
        · rw [AList.lookup_insert_ne hname] at h
          exact loggers.file_eq name' file h }

/-- The loop of `FlushBuffer`, with the module name that it carries along. -/
def flushLoop (processGroup : List Char) :
    List Msg → ModuleLoggers logDir → List Char → List FileWrite × ModuleLoggers logDir
  | [], loggers, _ => ([], loggers)
  | msg :: buffer, loggers, moduleName =>
    let (text, moduleName) := findModuleName processGroup msg.message moduleName
    let loggers := loggers.create moduleName
    let file := (loggers.files.lookup moduleName).getD []
    let rest := flushLoop processGroup buffer loggers moduleName
    (⟨file, decide (0 < msg.level), msg.ts, text⟩ :: rest.1, rest.2)

/-- `FlushBuffer`: the writes to files, and the file objects afterwards. -/
def flushBuffer (processGroup : List Char) (buffer : List Msg) (loggers : ModuleLoggers logDir) :
    List FileWrite × ModuleLoggers logDir :=
  flushLoop processGroup buffer loggers []

/-! ### Messages by themselves -/

/-- The parts of a text before and after the first occurrence of a character. -/
def splitFirst (c : Char) : List Char → Option (List Char × List Char)
  | [] => none
  | x :: text =>
    if x = c then some ([], text) else (splitFirst c text).map fun parts => (x :: parts.1, parts.2)

/-- The first tag of a message, with the text before and after it. -/
def firstTag (message : List Char) : Option (List Char × List Char × List Char) :=
  (splitFirst '[' message).bind fun parts =>
    (splitFirst ']' parts.2).map fun parts' => (parts.1, parts'.1, parts'.2)

/-- The module that a message names: that of its tag, or the process group if there is no tag or an
empty one. -/
def ownModule (processGroup message : List Char) : List Char :=
  match firstTag message with
  | none => processGroup
  | some (_, tag, _) => if tag = [] then processGroup else tag

/-- A message without its tag. -/
def ownText (message : List Char) : List Char :=
  match firstTag message with
  | none => message
  | some (before, _, after) => before ++ after

/-- The write that a message asks for by itself. -/
def ownWrite (logDir processGroup : List Char) (msg : Msg) : FileWrite where
  file := fileName logDir (ownModule processGroup msg.message)
  forceFlush := decide (0 < msg.level)
  ts := msg.ts
  text := ownText msg.message

variable {c : Char} {text before after tag : List Char}

theorem splitFirst_append (h : c ∉ before) :
    splitFirst c (before ++ c :: after) = some (before, after) := by
  induction before with
  | nil => simp [splitFirst]
  | cons x before ih =>
    have hx : x ≠ c := (ne_of_not_mem_cons h).symm
    simp [splitFirst, hx, ih (not_mem_of_not_mem_cons h)]

theorem splitFirst_eq_none (h : c ∉ text) : splitFirst c text = none := by
  induction text with
  | nil => rfl
  | cons x text ih =>
    have hx : x ≠ c := (ne_of_not_mem_cons h).symm
    simp [splitFirst, hx, ih (not_mem_of_not_mem_cons h)]

/-- A text is split at the first occurrence of a character, if there is one. -/
theorem splitFirst_cases (c : Char) (text : List Char) :
    (c ∉ text ∧ splitFirst c text = none) ∨
      ∃ before after, text = before ++ c :: after ∧ c ∉ before ∧
        splitFirst c text = some (before, after) := by
  by_cases hc : c ∈ text
  · obtain ⟨before, after, rfl, hbefore⟩ := eq_append_cons_of_mem hc
    exact .inr ⟨before, after, rfl, hbefore, splitFirst_append hbefore⟩
  · exact .inl ⟨hc, splitFirst_eq_none hc⟩

theorem firstTag_eq_some (hbefore : '[' ∉ before) (htag : ']' ∉ tag) :
    firstTag (before ++ '[' :: (tag ++ ']' :: after)) = some (before, tag, after) := by
  simp [firstTag, splitFirst_append hbefore, splitFirst_append htag]

/-! ### `FindModuleName` -/

theorem findIdx_append (h : c ∉ before) :
    (before ++ c :: after).findIdx? (· = c) = some before.length := by
  have hnone : before.findIdx? (· = c) = none :=
    findIdx?_eq_none_iff.mpr fun x hx => decide_eq_false fun heq => h (heq ▸ hx)
  simp [findIdx?_append, hnone, findIdx?_cons]

theorem find_eq_none {pos : ℕ} (h : c ∉ text.drop pos) : find text c pos = none := by
  have hnone : (text.drop pos).findIdx? (· = c) = none :=
    findIdx?_eq_none_iff.mpr fun x hx => decide_eq_false fun heq => h (heq ▸ hx)
  rw [find, hnone, map_none]

variable (processGroup message name : List Char)

/-- `FindModuleName` finds the first tag, and keeps the text and the name if there is none. An empty
name is replaced by that of the process group. -/
theorem findModuleName_eq : findModuleName processGroup message name =
      match firstTag message with
      | none => (message, if name = [] then processGroup else name)
      | some (before, tag, after) => (before ++ after, if tag = [] then processGroup else tag) := by
  rcases splitFirst_cases '[' message with ⟨hnone, hsplit⟩ | ⟨before, rest, rfl, hbefore, hsplit⟩
  · have hfind : find message '[' 0 = none := find_eq_none hnone
    simp only [findModuleName, hfind, firstTag, hsplit, bind_none]
    split_ifs <;> simp_all
  · have hlpos : find (before ++ '[' :: rest) '[' 0 = some before.length := by
      rw [find, drop_zero, findIdx_append hbefore]
      rfl
    have hdrop : (before ++ '[' :: rest).drop before.length = '[' :: rest := drop_left
    rcases splitFirst_cases ']' rest with ⟨hnone, hsplit'⟩ | ⟨tag, after, rfl, htag, hsplit'⟩
    · have hrpos : find (before ++ '[' :: rest) ']' before.length = none :=
        find_eq_none (by simp [hdrop, hnone])
      simp only [findModuleName, hlpos, hrpos, firstTag, hsplit, hsplit', bind_some,
        map_none]
      split_ifs <;> simp_all
    · have hrpos : find (before ++ '[' :: (tag ++ ']' :: after)) ']' before.length =
          some (tag.length + 1 + before.length) := by
        rw [find, hdrop, ← cons_append, findIdx_append (by simp [htag])]
        rfl
      have htext : (before ++ '[' :: (tag ++ ']' :: after)).drop
          (tag.length + 1 + before.length + 1) = after := by
        have hlength : (before ++ '[' :: (tag ++ [']'])).length =
            tag.length + 1 + before.length + 1 := by
          simp only [length_append, length_cons, length_nil]
          omega
        rw [← hlength, show before ++ '[' :: (tag ++ ']' :: after) =
          (before ++ '[' :: (tag ++ [']'])) ++ after by simp, drop_left]
      have hname : ((before ++ '[' :: (tag ++ ']' :: after)).drop (before.length + 1)).take
          (tag.length + 1 + before.length - before.length - 1) = tag := by
        rw [← drop_drop, hdrop, Nat.add_sub_cancel, Nat.add_sub_cancel, drop_one,
          tail_cons, take_left]
      simp only [findModuleName, hlpos, hrpos, firstTag_eq_some hbefore htag, htext, hname,
        take_left]
      split_ifs <;> simp_all

/-! ### Buffers -/

theorem fileName_injective (logDir : List Char) : Function.Injective (fileName logDir) := by
  intro name name' h
  unfold fileName at h
  split_ifs at h
  · exact append_cancel_right h
  · have h' := append_cancel_left h
    exact append_cancel_right (List.cons.inj h').2

theorem ModuleLoggers.file_create (loggers : ModuleLoggers logDir) (name : List Char) :
    ((loggers.create name).files.lookup name).getD [] = fileName logDir name := by
  cases hfile : (loggers.create name).files.lookup name with
  | none =>
    exfalso
    rw [AList.lookup_eq_none] at hfile
    unfold create at hfile
    split_ifs at hfile with hname
    · exact hfile hname
    · exact hfile (AList.mem_insert _ |>.mpr (.inl rfl))
  | some file => exact (loggers.create name).file_eq name file hfile

theorem carried_eq_iff :
    (findModuleName processGroup message name).2 = ownModule processGroup message ↔
      (firstTag message).isSome ∨ name = [] ∨ name = processGroup := by
  rw [findModuleName_eq, ownModule]
  cases firstTag message with
  | some parts => simp
  | none =>
    simp only [isSome_none, Bool.false_eq_true, false_or]
    split_ifs with hname <;> simp [hname]

theorem text_eq : (findModuleName processGroup message name).1 = ownText message := by
  rw [findModuleName_eq, ownText]
  cases firstTag message <;> rfl

theorem ownModule_eq_nil {processGroup message : List Char}
    (h : ownModule processGroup message = []) : ownModule processGroup message = processGroup := by
  unfold ownModule at h ⊢
  split at h
  · rfl
  · split_ifs at h ⊢ with htag
    · rfl
    · exact absurd h htag

/-- The loop routes the messages of a buffer by their own content exactly if the first one does not
depend on the name that is carried to it, and each other one has a tag or follows a message of the
process group. -/
theorem flushLoop_eq_iff (processGroup : List Char) (buffer : List Msg)
    (loggers : ModuleLoggers logDir) (name : List Char) :
    (flushLoop processGroup buffer loggers name).1 = buffer.map (ownWrite logDir processGroup) ↔
      (∀ msg ∈ buffer.head?, (firstTag msg.message).isSome ∨ name = [] ∨ name = processGroup) ∧
      buffer.IsChain fun a b => (firstTag b.message).isSome ∨
        ownModule processGroup a.message = processGroup := by
  induction buffer generalizing loggers name with
  | nil => simp [flushLoop]
  | cons msg buffer ih =>
    simp only [flushLoop, map_cons, List.cons.injEq, ModuleLoggers.file_create, text_eq,
      ownWrite, FileWrite.mk.injEq, and_true, (fileName_injective logDir).eq_iff,
      head?_cons, mem_def, some.injEq, forall_eq', isChain_cons]
    rw [carried_eq_iff]
    refine and_congr_right fun hfirst => ?_
    rw [ih, (carried_eq_iff processGroup msg.message name).mpr hfirst]
    refine and_congr_left fun _ => forall₂_congr fun next _ => or_congr_right ?_
    exact or_iff_right_of_imp ownModule_eq_nil

/-- **Routing.** The messages of a buffer are all written to the files of their own modules, without
their tags, exactly if each message but the first has a tag or follows a message of the process
group. -/
theorem flushBuffer_eq_iff (processGroup : List Char) (buffer : List Msg)
    (loggers : ModuleLoggers logDir) :
    (flushBuffer processGroup buffer loggers).1 = buffer.map (ownWrite logDir processGroup) ↔
      buffer.IsChain fun a b => (firstTag b.message).isSome ∨
        ownModule processGroup a.message = processGroup := by
  rw [flushBuffer, flushLoop_eq_iff]
  simp

/-- Two messages with tags after one without. -/
theorem flushBuffer_tagged :
    (flushBuffer "group".toList [⟨1, "I plain".toList, 0⟩, ⟨2, "E[planning] stop".toList, 2⟩,
        ⟨3, "I[] start".toList, 0⟩] (⟨∅, by simp⟩ : ModuleLoggers [])).1 =
      [⟨"group.log.INFO.".toList, false, 1, "I plain".toList⟩,
        ⟨"planning.log.INFO.".toList, true, 2, "E stop".toList⟩,
        ⟨"group.log.INFO.".toList, false, 3, "I start".toList⟩] :=
  ((flushBuffer_eq_iff _ _ _).mpr (by decide +kernel)).trans (by decide +kernel)

/-- A message without a tag after one with a tag goes to the module of that tag. -/
theorem flushBuffer_untagged_after_tagged :
    (flushBuffer "group".toList [⟨1, "E[planning] stop".toList, 2⟩, ⟨2, "I plain".toList, 0⟩]
        (⟨∅, by simp⟩ : ModuleLoggers [])).1 =
      [⟨"planning.log.INFO.".toList, true, 1, "E stop".toList⟩,
        ⟨"planning.log.INFO.".toList, false, 2, "I plain".toList⟩] ∧
    ownModule "group".toList "I plain".toList = "group".toList := by
  decide +kernel

end Cyber.Logger
