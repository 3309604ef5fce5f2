import Notebook.Cyber.Logger.FlushBuffer
import Notebook.Interleaving.Run

/-!
# The asynchronous logger

An `AsyncLogger` (`src/logger/async_logger.cc`) has two buffers. `Write` appends a message to the
active one; the flush thread swaps the two and writes the messages of the other one to the log
files. A spin lock, the flag `flag_`, protects the append and the swap. `Stop` stores the state
`STOPPED`, joins the flush thread, which leaves its loop when it sees the state, and flushes the
active buffer itself, without the lock.

`Write` looks at the state before it takes the lock, and it looks the level of the message up with
`log_level_map.at`, which throws for a first character that is no level, while it holds the lock.

Any number of threads call `Write`, and one of them calls `Stop`, directly or by a `Write` of an
empty message with `force_flush` and time `0`. A flush is one step for each message. What is written
to which file is in `Cyber.Logger.flushBuffer`; here a message is written when it has been passed to
a file object.
-/

open Interleaving Option

namespace Cyber.Logger

/-- `State` -/
inductive LoggerState
  | initted
  | running
  | stopped
deriving DecidableEq, Repr

/-- `log_level_map` -/
def logLevelMap : Char → Option ℕ
  | 'F' => some 3
  | 'E' => some 2
  | 'W' => some 1
  | 'I' => some 0
  | _ => none

/-- A message on its way to the buffer. -/
structure Request where
  ts : ℤ
  message : List Char
deriving DecidableEq, Repr

/-- The level of a message, if its first character is one. -/
def Request.level (r : Request) : Option ℕ := r.message.head?.bind logLevelMap

/-- The message in a buffered message. -/
def Msg.request (msg : Msg) : Request := ⟨msg.ts, msg.message⟩

/-- The arguments of `Write`; the message is `none` for a null pointer. -/
structure WriteArgs where
  forceFlush : Bool
  timestamp : ℤ
  message : Option (List Char)
deriving DecidableEq, Repr

/-- Where a thread is: outside; in `Write` before the lock, before the append or before the release;
or in `Stop` before the store, before the join, in the last flush, before the checks, or after a
check has failed. -/
inductive Pc
  | idle
  | lock (r : Request)
  | append (r : Request)
  | unlock
  | stop
  | join
  | flush
  | check
  | aborted
deriving DecidableEq, Repr

/-- Where the flush thread is. -/
inductive FlusherPc
  | loop
  | lock
  | swap
  | unlock
  | flush
  | done
deriving DecidableEq, Repr

/-- How far the one call to `Stop` has come, and which thread makes it. -/
inductive StopPhase (T : Type*)
  | notCalled
  | called (t : T)
  | flushed (t : T)
  | returned
deriving DecidableEq, Repr

/-- The logger with its threads. The last four fields are history: the messages passed to file
objects, those whose `Write` has found the logger running, those that were appended, and those whose
`Write` has thrown. -/
structure AsyncLogger (T : Type*) where
  state : LoggerState
  flag : Bool
  active : List Msg
  flushing : List Msg
  flusher : FlusherPc
  pc : T → Pc
  stop : StopPhase T
  written : List Msg
  accepted : List (T × Request)
  appended : List (T × Request)
  thrown : List (T × Request)

variable {T : Type*}

/-- The logger after `Start`. -/
def init : AsyncLogger T where
  state := .running
  flag := false
  active := []
  flushing := []
  flusher := .loop
  pc := fun _ => .idle
  stop := .notCalled
  written := []
  accepted := []
  appended := []
  thrown := []

/-- What happens: a thread calls `Write` or `Stop` or goes on, or the flush thread goes on. -/
inductive Event (T : Type*)
  | write (t : T) (args : WriteArgs)
  | stop (t : T)
  | go (t : T)
  | flusher
deriving DecidableEq, Repr

section Step

variable [DecidableEq T] (s : AsyncLogger T)

namespace AsyncLogger

/-- A thread moves. -/
def setPc (t : T) (pc : Pc) : AsyncLogger T := { s with pc := Function.update s.pc t pc }

/-- `Write` up to its first look at the flag. -/
def write (t : T) (args : WriteArgs) : AsyncLogger T :=
  if s.state ≠ .running then s
  else
    match args.message with
    | none => s
    | some [] => if args.forceFlush ∧ args.timestamp = 0 then s.setPc t .stop else s
    | some (c :: message) =>
      let r : Request := ⟨args.timestamp, c :: message⟩
      { s.setPc t (.lock r) with accepted := s.accepted ++ [(t, r)] }

/-- The next step of a thread in `Write` or `Stop`. -/
def go (t : T) : Option (AsyncLogger T) :=
  match s.pc t with
  | .idle | .aborted => none
  | .lock r => if s.flag then some s else some { s.setPc t (.append r) with flag := true }
  | .append r =>
    match r.level with
    | some level =>
      some { s.setPc t .unlock with
        active := s.active ++ [⟨r.ts, r.message, level⟩], appended := s.appended ++ [(t, r)] }
    -- `at` throws out of the critical section
    | none => some { s.setPc t .idle with thrown := s.thrown ++ [(t, r)] }
  | .unlock => some { s.setPc t .idle with flag := false }
  | .stop =>
    if s.stop = .notCalled then some { s.setPc t .join with state := .stopped, stop := .called t }
    else none
  | .join => if s.flusher = .done then some (s.setPc t .flush) else none
  | .flush =>
    match s.active with
    | [] => some { s.setPc t .check with stop := .flushed t }
    | msg :: rest => some { s with active := rest, written := s.written ++ [msg] }
  | .check =>
    if s.active = [] ∧ s.flushing = [] then some { s.setPc t .idle with stop := .returned }
    else some (s.setPc t .aborted)

/-- The next step of the flush thread. -/
def flush : Option (AsyncLogger T) :=
  match s.flusher with
  | .loop => some { s with flusher := if s.state = .running then .lock else .done }
  | .lock => if s.flag then some s else some { s with flag := true, flusher := .swap }
  | .swap => some { s with active := s.flushing, flushing := s.active, flusher := .unlock }
  | .unlock => some { s with flag := false, flusher := .flush }
  | .flush =>
    match s.flushing with
    | [] => some { s with flusher := .loop }
    | msg :: rest => some { s with flushing := rest, written := s.written ++ [msg] }
  | .done => none

end AsyncLogger

/-- One step of a thread. -/
def step : Event T → Option (AsyncLogger T)
  | .write t args => if s.pc t = .idle then some (s.write t args) else none
  | .stop t => if s.pc t = .idle then some (s.setPc t .stop) else none
  | .go t => s.go t
  | .flusher => s.flush

end Step

/-- What a step can do. -/
inductive Moves [DecidableEq T] (s : AsyncLogger T) : Event T → AsyncLogger T → Prop
  | refuse (t : T) (args : WriteArgs) : Moves s (.write t args) s
  | writeStop (t : T) (args : WriteArgs) (hpc : s.pc t = .idle) :
      Moves s (.write t args) (s.setPc t .stop)
  | accept (t : T) (args : WriteArgs) (r : Request) (hpc : s.pc t = .idle)
      (hstate : s.state = .running) :
      Moves s (.write t args) { s.setPc t (.lock r) with accepted := s.accepted ++ [(t, r)] }
  | stop (t : T) (hpc : s.pc t = .idle) : Moves s (.stop t) (s.setPc t .stop)
  | spin (t : T) (r : Request) (hpc : s.pc t = .lock r) : Moves s (.go t) s
  | lock (t : T) (r : Request) (hpc : s.pc t = .lock r) (hflag : s.flag = false) :
      Moves s (.go t) { s.setPc t (.append r) with flag := true }
  | append (t : T) (r : Request) (level : ℕ) (hpc : s.pc t = .append r)
      (hlevel : r.level = some level) :
      Moves s (.go t) { s.setPc t .unlock with
        active := s.active ++ [⟨r.ts, r.message, level⟩], appended := s.appended ++ [(t, r)] }
  | throw (t : T) (r : Request) (hpc : s.pc t = .append r) (hlevel : r.level = none) :
      Moves s (.go t) { s.setPc t .idle with thrown := s.thrown ++ [(t, r)] }
  | unlock (t : T) (hpc : s.pc t = .unlock) :
      Moves s (.go t) { s.setPc t .idle with flag := false }
  | store (t : T) (hpc : s.pc t = .stop) (hstop : s.stop = .notCalled) :
      Moves s (.go t) { s.setPc t .join with state := .stopped, stop := .called t }
  | join (t : T) (hpc : s.pc t = .join) (hdone : s.flusher = .done) :
      Moves s (.go t) (s.setPc t .flush)
  | flushed (t : T) (hpc : s.pc t = .flush) (hactive : s.active = []) :
      Moves s (.go t) { s.setPc t .check with stop := .flushed t }
  | flushOne (t : T) (msg : Msg) (rest : List Msg) (hpc : s.pc t = .flush)
      (hactive : s.active = msg :: rest) :
      Moves s (.go t) { s with active := rest, written := s.written ++ [msg] }
  | returned (t : T) (hpc : s.pc t = .check) :
      Moves s (.go t) { s.setPc t .idle with stop := .returned }
  | abort (t : T) (hpc : s.pc t = .check) : Moves s (.go t) (s.setPc t .aborted)
  | flusherLoop (hpc : s.flusher = .loop) :
      Moves s .flusher { s with flusher := if s.state = .running then .lock else .done }
  | flusherSpin (hpc : s.flusher = .lock) : Moves s .flusher s
  | flusherLock (hpc : s.flusher = .lock) (hflag : s.flag = false) :
      Moves s .flusher { s with flag := true, flusher := .swap }
  | flusherSwap (hpc : s.flusher = .swap) :
      Moves s .flusher { s with active := s.flushing, flushing := s.active, flusher := .unlock }
  | flusherUnlock (hpc : s.flusher = .unlock) :
      Moves s .flusher { s with flag := false, flusher := .flush }
  | flusherEnd (hpc : s.flusher = .flush) (hflushing : s.flushing = []) :
      Moves s .flusher { s with flusher := .loop }
  | flusherOne (msg : Msg) (rest : List Msg) (hpc : s.flusher = .flush)
      (hflushing : s.flushing = msg :: rest) :
      Moves s .flusher { s with flushing := rest, written := s.written ++ [msg] }

section Moves

variable [DecidableEq T] {s s' : AsyncLogger T} {t : T}

theorem moves_write (hpc : s.pc t = .idle) (args : WriteArgs) :
    Moves s (.write t args) (s.write t args) := by
  unfold AsyncLogger.write
  split
  · exact .refuse t args
  · next hstate =>
    split
    · exact .refuse t args
    · split_ifs
      · exact .writeStop t args hpc
      · exact .refuse t args
    · exact .accept t args _ hpc (not_not.mp hstate)

theorem moves_of_go (h : s.go t = some s') : Moves s (.go t) s' := by
  rw [AsyncLogger.go] at h
  split at h
  · cases h
  · cases h
  · next r hpc =>
    split_ifs at h with hflag <;> cases h
    · exact .spin t r hpc
    · exact .lock t r hpc (Bool.eq_false_iff.mpr hflag)
  · next r hpc =>
    split at h <;> cases h
    · next level hlevel => exact .append t r level hpc hlevel
    · next hlevel => exact .throw t r hpc hlevel
  · next hpc =>
    cases h
    exact .unlock t hpc
  · next hpc =>
    obtain ⟨hstop, ⟨⟩⟩ := ite_none_right_eq_some.mp h
    exact .store t hpc hstop
  · next hpc =>
    obtain ⟨hdone, ⟨⟩⟩ := ite_none_right_eq_some.mp h
    exact .join t hpc hdone
  · next hpc =>
    split at h <;> cases h
    · next hactive => exact .flushed t hpc hactive
    · next msg rest hactive => exact .flushOne t msg rest hpc hactive
  · next hpc =>
    split_ifs at h <;> cases h
    · exact .returned t hpc
    · exact .abort t hpc

theorem moves_of_flush (h : s.flush = some s') : Moves s .flusher s' := by
  rw [AsyncLogger.flush] at h
  split at h
  · next hpc =>
    cases h
    exact .flusherLoop hpc
  · next hpc =>
    split_ifs at h with hflag <;> cases h
    · exact .flusherSpin hpc
    · exact .flusherLock hpc (Bool.eq_false_iff.mpr hflag)
  · next hpc =>
    cases h
    exact .flusherSwap hpc
  · next hpc =>
    cases h
    exact .flusherUnlock hpc
  · next hpc =>
    split at h <;> cases h
    · next hflushing => exact .flusherEnd hpc hflushing
    · next msg rest hflushing => exact .flusherOne msg rest hpc hflushing
  · cases h

theorem moves_of_step {e : Event T} (h : step s e = some s') : Moves s e s' := by
  cases e with
  | write t args =>
    obtain ⟨hpc, ⟨⟩⟩ := ite_none_right_eq_some.mp h
    exact moves_write hpc args
  | stop t =>
    obtain ⟨hpc, ⟨⟩⟩ := ite_none_right_eq_some.mp h
    exact .stop t hpc
  | go t => exact moves_of_go h
  | flusher => exact moves_of_flush h

end Moves

end Cyber.Logger
