import BitzServer.Icap.Text
import BitzServer.Lib.FileLock
import BitzServer.Lib.Runs

/-!
# Daemons

`daemonize` and `shutdown` in any number of server processes with the same pid file, statement by statement, with the workers that they
fork. Each process may end at any point: by an error that it finds, by a signal or by a crash.
-/

namespace BitzServer

namespace Daemon

/-- Where a process stands in `daemonize`, and behind it. -/
inductive Stage where
  /-- the second child, before `open` -/
  | started
  | opened
  | locked
  /-- behind `write`, which has written a number of characters -/
  | running (written : Nat)
  /-- forked by a running daemon: it has the descriptor and not the lock -/
  | worker
  /-- behind `close` in `shutdown` -/
  | closed
  deriving DecidableEq

/-- The processes by their pids, and the pid file. -/
structure State where
  procs : Nat → Option Stage
  file : FileLock.File Nat Byte

inductive Event where
  | start (pid : Nat)
  | openFile (pid : Nat)
  | lockf (pid : Nat)
  | write (pid count : Nat)
  | fork (pid child : Nat)
  | shutdown (pid : Nat)
  | exit (pid : Nat)

/-- No server, and a pid file that an earlier one may have left. -/
def State.initial (content : Option Bytes) : State := { procs := fun _ => none, file := { content := content, owner := none } }

/-- `sprintf( str, "%d\n", globals.pid )` -/
def pidText (pid : Nat) : Bytes := itoa pid ++ [lf]

/-- The size of `str` -/
def strSize : Nat := 10

/-- The pids of the system are below its greatest `pid_max`. -/
def pidLimit : Nat := 2 ^ 22

def State.move (s : State) (pid : Nat) (stage : Option Stage) (file : FileLock.File Nat Byte) : State :=
  { procs := Function.update s.procs pid stage, file := file }

/-- One statement of a process; none where the process is not there, or not at that statement. -/
def step (s : State) : Event → Option State
  | .start pid => if s.procs pid = none ∧ pid < pidLimit then some (s.move pid (some .started) s.file) else none
  | .openFile pid => if s.procs pid = some .started then some (s.move pid (some .opened) s.file.create) else none
  | .lockf pid =>
    if s.procs pid = some .opened then
      match s.file.tryLock pid with
      | some file => some (s.move pid (some .locked) file)
      | none => some (s.move pid none (s.file.release pid))
    else none
  -- `str` must hold the text and the NUL behind it; `write` may write less of it
  | .write pid count =>
    if s.procs pid = some .locked ∧ (pidText pid).length < strSize then
      let data := (pidText pid).take count
      some (s.move pid (some (.running data.length)) (s.file.overwrite data))
    else none
  | .fork pid child =>
    match s.procs pid with
    | some (.running _) => if s.procs child = none ∧ child < pidLimit then some (s.move child (some .worker) s.file) else none
    | _ => none
  | .shutdown pid => if s.procs pid ≠ none then some (s.move pid (some .closed) (s.file.release pid)) else none
  | .exit pid => if s.procs pid ≠ none then some (s.move pid none (s.file.release pid)) else none

/-- The stages between the lock and its release. -/
def Stage.HasLock : Option Stage → Prop
  | some .locked => True
  | some (.running _) => True
  | _ => False

/-- The processes between the lock and its release. -/
def State.Holds (s : State) (pid : Nat) : Prop := Stage.HasLock (s.procs pid)

/-- The steps, with the process that makes a step or is made by it, its stage and the file behind the step. -/
theorem step_cases {s s' : State} {e : Event} (h : step s e = some s') : ∃ pid stage file, s' = s.move pid stage file ∧
    (s.procs pid = none → pid < pidLimit) ∧
    ((¬Stage.HasLock (s.procs pid) ∧ ¬Stage.HasLock stage ∧ stage ≠ some .opened ∧ file = s.file) ∨
      (s.procs pid = some .started ∧ stage = some .opened ∧ file = s.file.create) ∨
      (s.procs pid = some .opened ∧ stage = some .locked ∧ s.file.tryLock pid = some file) ∨
      (s.procs pid = some .locked ∧ ∃ count, stage = some (.running ((pidText pid).take count).length) ∧
        file = s.file.overwrite ((pidText pid).take count)) ∨
      (¬Stage.HasLock stage ∧ stage ≠ some .opened ∧ file = s.file.release pid)) := by
  have present : ∀ {pid : Nat} {stage : Stage}, s.procs pid = some stage → s.procs pid = none → pid < pidLimit :=
    fun hsome hnone => absurd (hnone.symm.trans hsome) nofun
  cases e with
  | start pid =>
    rw [step] at h
    split at h
    case isTrue hnone =>
      exact ⟨pid, _, _, (Option.some.inj h).symm, fun _ => hnone.2, .inl ⟨by rw [hnone.1]; exact id, id, nofun, rfl⟩⟩
    case isFalse => nomatch h
  | openFile pid =>
    rw [step] at h
    split at h
    case isTrue hstarted => exact ⟨pid, _, _, (Option.some.inj h).symm, present hstarted, .inr (.inl ⟨hstarted, rfl, rfl⟩)⟩
    case isFalse => nomatch h
  | lockf pid =>
    rw [step] at h
    split at h
    case isTrue hopened =>
      cases hlock : s.file.tryLock pid with
      | some file =>
        rw [hlock] at h
        exact ⟨pid, _, file, (Option.some.inj h).symm, present hopened, .inr (.inr (.inl ⟨hopened, rfl, hlock⟩))⟩
      | none =>
        rw [hlock] at h
        exact ⟨pid, _, _, (Option.some.inj h).symm, present hopened, .inr (.inr (.inr (.inr ⟨id, nofun, rfl⟩)))⟩
    case isFalse => nomatch h
  | write pid count =>
    rw [step] at h
    split at h
    case isTrue hlocked =>
      exact ⟨pid, _, _, (Option.some.inj h).symm, present hlocked.1, .inr (.inr (.inr (.inl ⟨hlocked.1, count, rfl, rfl⟩)))⟩
    case isFalse => nomatch h
  | fork pid child =>
    rw [step] at h
    split at h
    · split at h
      case isTrue hnone => exact ⟨child, _, _, (Option.some.inj h).symm, fun _ => hnone.2, .inl ⟨by rw [hnone.1]; exact id, id, nofun, rfl⟩⟩
      case isFalse => nomatch h
    · nomatch h
  | shutdown pid =>
    rw [step] at h
    split at h
    case isTrue hthere =>
      exact ⟨pid, _, _, (Option.some.inj h).symm, fun hnone => absurd hnone hthere, .inr (.inr (.inr (.inr ⟨id, nofun, rfl⟩)))⟩
    case isFalse => nomatch h
  | exit pid =>
    rw [step] at h
    split at h
    case isTrue hthere =>
      exact ⟨pid, _, _, (Option.some.inj h).symm, fun hnone => absurd hnone hthere, .inr (.inr (.inr (.inr ⟨id, nofun, rfl⟩)))⟩
    case isFalse => nomatch h

end Daemon

end BitzServer
