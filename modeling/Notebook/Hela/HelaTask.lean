import Notebook.Container.NestedMap
import Mathlib.Data.List.MinMax

/-!
# The tasks of a batch

`DoHelaTaskHandle` (`do_hela_task.cc`) clones one image to several disks at a time. The tasks of a
batch have to agree on the image and on the sizes; they may know different versions of the image
source. `CheckTaskListValid` looks for the newest version and hands it, with its koala routers, to
the tasks that have an older one.

The setter of the routers (`hela_task.h`) swaps the map of the task with the map it is given. So
after the first stale task the handle no longer has the routers of the newest version but the old
ones of that task, which go to the next stale task.
-/

open Container List

namespace Hela

/-! ### Tasks -/

/-- An ark server. -/
structure Server where
  ip : String
  port : ℕ
deriving DecidableEq, Repr

/-- `ShardChronoRouter`: the server of a shard of the image, and its peers. -/
structure ShardChronoRouter where
  server : Server
  peerServers : List Server
deriving DecidableEq, Repr

/-- `KoalaRouteMap`, from the index of a shard to its router. -/
abbrev KoalaRouteMap : Type := Map ℤ ShardChronoRouter

/-- The fields of a `HelaTask` that describe its source. -/
structure HelaTask where
  srcVdiskId : String
  lcSize : ℕ
  pcSize : ℕ
  shardSize : ℕ
  srcVersion : ℕ
  koalaRouters : KoalaRouteMap
deriving DecidableEq

variable (t : HelaTask)

namespace HelaTask

/-- `set_src_version` -/
def setSrcVersion (srcVersion : ℕ) : HelaTask := { t with srcVersion }

/-- `set_koala_routers`, which swaps: the task, and what is left in the argument. -/
def setKoalaRouters (koalaRouters : KoalaRouteMap) : HelaTask × KoalaRouteMap :=
  ({ t with koalaRouters }, t.koalaRouters)

end HelaTask

/-- What a `DoHelaTaskHandle` knows of the source of its tasks. -/
structure SourceInfo where
  srcVdiskId : String
  lcSize : ℕ
  pcSize : ℕ
  shardSize : ℕ
  srcVersion : ℕ
  koalaRouters : KoalaRouteMap

/-! ### `CheckTaskListValid` -/

variable (src : SourceInfo)

/-- The asserts of the first loop. -/
def SourceInfo.Agrees (src : SourceInfo) (t : HelaTask) : Prop :=
  t.srcVdiskId = src.srcVdiskId ∧ t.lcSize = src.lcSize ∧ t.pcSize = src.pcSize ∧
    t.shardSize = src.shardSize
deriving Decidable

/-- The first loop, over the tasks after the first. An assert that fails ends the process. -/
def newestSource : SourceInfo → List HelaTask → Option SourceInfo
  | src, [] => some src
  | src, t :: tasks =>
    if src.Agrees t then
      newestSource
        (if t.srcVersion > src.srcVersion then
          { src with srcVersion := t.srcVersion, koalaRouters := t.koalaRouters }
        else src) tasks
    else none

/-- The second loop. -/
def refreshTasks : SourceInfo → List HelaTask → SourceInfo × List HelaTask
  | src, [] => (src, [])
  | src, t :: tasks =>
    if t.srcVersion ≠ src.srcVersion then
      let t := t.setSrcVersion src.srcVersion
      let swapped := t.setKoalaRouters src.koalaRouters
      let r := refreshTasks { src with koalaRouters := swapped.2 } tasks
      (r.1, swapped.1 :: r.2)
    else
      let r := refreshTasks src tasks
      (r.1, t :: r.2)

/-- `CheckTaskListValid`. The tasks of the list are different objects. -/
def checkTaskListValid : List HelaTask → Option (SourceInfo × List HelaTask)
  | [] => none
  | task :: tasks =>
    let src : SourceInfo :=
      { srcVdiskId := task.srcVdiskId, lcSize := task.lcSize, pcSize := task.pcSize
        shardSize := task.shardSize, srcVersion := task.srcVersion
        koalaRouters := task.koalaRouters }
    (newestSource src tasks).map fun src => refreshTasks src (task :: tasks)

/-! ### The newest version -/

/-- The handle has the version and the routers of a task. -/
def SourceInfo.From (src : SourceInfo) (t : HelaTask) : Prop :=
  src.srcVersion = t.srcVersion ∧ src.koalaRouters = t.koalaRouters

theorem argmax_cons_cons (a b : HelaTask) (l : List HelaTask) :
    (a :: b :: l).argmax HelaTask.srcVersion =
      ((if b.srcVersion > a.srcVersion then b else a) :: l).argmax HelaTask.srcVersion := by
  simp only [List.argmax, foldl_cons, List.argAux, gt_iff_lt]
  split <;> rfl

/-- **The first loop** finds the first of the tasks with the newest version. -/
theorem newestSource_eq_argmax {src src' : SourceInfo} {task : HelaTask} {tasks : List HelaTask}
    (hsrc : src.From task) (h : newestSource src tasks = some src') :
    ∃ best ∈ (task :: tasks).argmax HelaTask.srcVersion, src'.From best := by
  induction tasks generalizing src task with
  | nil =>
    obtain rfl := Option.some.inj h
    exact ⟨task, rfl, hsrc⟩
  | cons t tasks ih =>
    rw [newestSource] at h
    split_ifs at h with hagrees hnewer
    · rw [argmax_cons_cons, if_pos (hsrc.1 ▸ hnewer)]
      exact ih ⟨rfl, rfl⟩ h
    · rw [argmax_cons_cons, if_neg (hsrc.1 ▸ hnewer)]
      exact ih hsrc h

/-! ### The stale tasks -/

theorem srcVersion_refreshTasks (tasks : List HelaTask) :
    ∀ t ∈ (refreshTasks src tasks).2, t.srcVersion = src.srcVersion := by
  induction tasks generalizing src with
  | nil => simp [refreshTasks]
  | cons t tasks ih =>
    rw [refreshTasks]
    split_ifs with hstale
    · exact forall_mem_cons.mpr ⟨rfl, ih _⟩
    · exact forall_mem_cons.mpr ⟨not_not.mp hstale, ih _⟩

/-- What a task should be after the check: it has the newest version, and its routers are those of
the newest task if its version was older. -/
def Refreshed (best t t' : HelaTask) : Prop :=
  t'.srcVersion = best.srcVersion ∧
    (t.srcVersion < best.srcVersion → t'.koalaRouters = best.koalaRouters)

/-- The tasks with an older version. -/
def stale (best : HelaTask) (tasks : List HelaTask) : List HelaTask :=
  tasks.filter fun t => t.srcVersion ≠ best.srcVersion

/-- **The second loop.** With the routers `src.koalaRouters` in hand, every stale task gets the
routers of the stale task before it. -/
theorem forall₂_refreshTasks_iff {best : HelaTask} {src : SourceInfo} {tasks : List HelaTask}
    (hsrc : src.srcVersion = best.srcVersion)
    (hmax : ∀ t ∈ tasks, t.srcVersion ≤ best.srcVersion) :
    List.Forall₂ (Refreshed best) tasks (refreshTasks src tasks).2 ↔
      stale best tasks = [] ∨ src.koalaRouters = best.koalaRouters ∧
        ∀ t ∈ (stale best tasks).dropLast, t.koalaRouters = best.koalaRouters := by
  induction tasks generalizing src with
  | nil => simp [refreshTasks, stale]
  | cons t tasks ih =>
    obtain ⟨ht, hmax⟩ := forall_mem_cons.mp hmax
    rw [refreshTasks, hsrc]
    by_cases hstale : t.srcVersion ≠ best.srcVersion
    · have hlt : t.srcVersion < best.srcVersion := lt_of_le_of_ne ht hstale
      have hcons : stale best (t :: tasks) = t :: stale best tasks :=
        filter_cons_of_pos (by simpa using hstale)
      have hhead : Refreshed best t
            ((t.setSrcVersion best.srcVersion).setKoalaRouters src.koalaRouters).1 ↔
          src.koalaRouters = best.koalaRouters :=
        ⟨fun h => h.2 hlt, fun h => ⟨rfl, fun _ => h⟩⟩
      -- the next stale task gets the routers of this one
      have hrest := @ih { src with srcVersion := best.srcVersion, koalaRouters := t.koalaRouters }
        rfl hmax
      rw [if_pos hstale, forall₂_cons, hcons, hhead]
      refine (and_congr_right fun _ => hrest).trans ?_
      cases stale best tasks with
      | nil | cons => simp
    · have hcons : stale best (t :: tasks) = stale best tasks :=
        filter_cons_of_neg (by simpa using hstale)
      have hhead : Refreshed best t t := ⟨not_not.mp hstale, fun hlt => absurd hlt.ne hstale⟩
      rw [if_neg hstale, forall₂_cons, hcons, ← ih hsrc hmax]
      exact and_iff_right hhead

/-- **The sources after the check.** The tasks agree on the image and the sizes. Every task then has
the newest version, and every task of an older version the routers of the first task that had the
newest one, exactly when all tasks of an older version, except the last of them, had these routers
before. -/
theorem refreshed_iff {tasks tasks' : List HelaTask} {src : SourceInfo}
    (h : checkTaskListValid tasks = some (src, tasks')) :
    ∃ best ∈ tasks.argmax HelaTask.srcVersion,
      (∀ t' ∈ tasks', t'.srcVersion = best.srcVersion) ∧
      (List.Forall₂ (Refreshed best) tasks tasks' ↔
        ∀ t ∈ (stale best tasks).dropLast, t.koalaRouters = best.koalaRouters) := by
  cases tasks with
  | nil => cases h
  | cons task tasks =>
    obtain ⟨src₁, hnewest, hrefresh⟩ := Option.map_eq_some_iff.mp h
    obtain ⟨best, hbest, hversion, hrouters⟩ := newestSource_eq_argmax ⟨rfl, rfl⟩ hnewest
    have hmax : ∀ t ∈ task :: tasks, t.srcVersion ≤ best.srcVersion :=
      fun t ht => le_of_mem_argmax ht hbest
    refine ⟨best, hbest, ?_, ?_⟩
    · rw [← hversion]
      have htasks : tasks' = (refreshTasks src₁ (task :: tasks)).2 := by rw [hrefresh]
      exact htasks ▸ srcVersion_refreshTasks _ _
    · have hiff := forall₂_refreshTasks_iff hversion hmax
      rw [hrefresh] at hiff
      refine hiff.trans ⟨?_, fun hroute => .inr ⟨hrouters, hroute⟩⟩
      rintro (hnone | ⟨-, hroute⟩)
      · simp [hnone]
      · exact hroute

/-- Routers with one shard, served at `port`. -/
def routersAt (port : ℕ) : KoalaRouteMap := AList.singleton 0 ⟨⟨"ark", port⟩, []⟩

/-- A task of the image `img` that knows the version `version` and the routers `routersAt port`. -/
def taskAt (version port : ℕ) : HelaTask :=
  ⟨"img", 40, 4194304, 1, version, routersAt port⟩

/-- With one stale task all is well: it gets the routers of the newest version. -/
theorem refreshed_of_oneStale :
    ∃ src tasks', checkTaskListValid [taskAt 1 10, taskAt 2 20] = some (src, tasks') ∧
      (∀ t' ∈ tasks', t'.srcVersion = 2) ∧
      List.Forall₂ (Refreshed (taskAt 2 20)) [taskAt 1 10, taskAt 2 20] tasks' := by
  have h : checkTaskListValid [taskAt 1 10, taskAt 2 20] =
      some (⟨"img", 40, 4194304, 1, 2, routersAt 10⟩, [taskAt 2 20, taskAt 2 20]) := rfl
  obtain ⟨best, ⟨⟩, hversion, hiff⟩ := refreshed_iff h
  exact ⟨_, _, h, hversion, hiff.mpr nofun⟩

/-- Two tasks are stale. The first gets the routers of the newest version, the second those that the
first had: the newest version with the routers of the version before it. -/
theorem checkTaskListValid_secondStale :
    (checkTaskListValid [taskAt 1 10, taskAt 1 11, taskAt 2 20]).map Prod.snd =
        some [taskAt 2 20, taskAt 2 10, taskAt 2 20] ∧
      ∀ best ∈ [taskAt 1 10, taskAt 1 11, taskAt 2 20].argmax HelaTask.srcVersion,
        ¬ List.Forall₂ (Refreshed best) [taskAt 1 10, taskAt 1 11, taskAt 2 20]
          [taskAt 2 20, taskAt 2 10, taskAt 2 20] := by
  refine ⟨rfl, ?_⟩
  rintro best ⟨⟩ hall
  have hsecond : Refreshed (taskAt 2 20) (taskAt 1 11) (taskAt 2 10) := by
    obtain - | ⟨-, - | ⟨hsecond, -⟩⟩ := hall
    exact hsecond
  exact absurd (congrArg (AList.lookup 0) (hsecond.2 (by decide))) (by decide)

end Hela
