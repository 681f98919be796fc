import BitzServer.Lib.Runs
import BitzServer.Server.Manager

/-!
# The worker process

The child branch of `spawn_worker`, statement by statement, in the copy of the manager that `fork` has made, and what a termination
signal does there: the handler calls `shutdown` and deletes the manager, which deletes no worker, and the raised signal ends the
process.
-/

namespace BitzServer

namespace Manager

/-- `_manager.worker_pool[i].worker` -/
def slotWorker (m : Manager) (i : Nat) : Option Nat := ((m.workerPool.getD [])[i]?).map WorkerPool.worker

/-- A write to `_manager.worker_pool[i]`. -/
def modifySlot (m : Manager) (i : Nat) (f : WorkerPool → WorkerPool) : Manager :=
  { m with workerPool := m.workerPool.map (fun pool => pool.modify i f) }

end Manager

/-- Where the child is. -/
inductive ChildPc where
  /-- `fork` has returned 0 -/
  | forked
  /-- `_manager.worker` is set -/
  | flagged
  /-- `_manager.worker_id` is set -/
  | numbered
  /-- the new worker is stored in the slot -/
  | constructed
  /-- `worker_id` of the slot is set -/
  | slotNumbered
  /-- `worker_pid` of the slot is set; until `run` returns -/
  | running
  /-- `run` has returned -/
  | ran
  /-- the end of the cycle is logged -/
  | logged
  /-- the worker is deleted -/
  | deleted
  deriving DecidableEq

/-- What the child does to workers: it makes one, deletes one (nothing, if the address is 0), or sends a signal to one. -/
inductive WorkerEvent where
  | construct (worker : Nat)
  | delete (worker : Nat)
  | kill (pid : Int) (sig : Signal)
  deriving DecidableEq

/-- What has an effect: to delete `NULL` is to do nothing. -/
def WorkerEvent.effects (events : List WorkerEvent) : List WorkerEvent := events.filter (fun e => e ≠ .delete 0)

def ShutdownAction.event : ShutdownAction → WorkerEvent
  | kill pid sig => .kill pid sig
  | delete worker => .delete worker

/-- The child, its copy of the manager, and what it has done. -/
structure WorkerProcess where
  pc : ChildPc
  manager : Manager
  events : List WorkerEvent
  deriving DecidableEq

namespace WorkerProcess

/-- The child at the return of `fork`. -/
def new (m : Manager) : WorkerProcess := { pc := .forked, manager := m, events := [] }

/-- The next statement, given the argument of `spawn_worker` and the address of the new worker. -/
def step (workerId address : Nat) (c : WorkerProcess) (_ : Unit) : Option WorkerProcess :=
  match c.pc with
  | .forked => some { c with pc := .flagged, manager := { c.manager with worker := true } }
  | .flagged => some { c with pc := .numbered, manager := { c.manager with workerId := workerId } }
  | .numbered => some { c with
      pc := .constructed
      manager := c.manager.modifySlot workerId (fun slot => { slot with worker := address })
      events := c.events ++ [.construct address] }
  | .constructed => some { c with
      pc := .slotNumbered
      manager := c.manager.modifySlot workerId (fun slot => { slot with workerId := workerId }) }
  | .slotNumbered => some { c with
      pc := .running
      manager := c.manager.modifySlot workerId (fun slot => { slot with workerPid := 0 }) }
  | .running => some { c with pc := .ran }
  | .ran => some { c with pc := .logged }
  | .logged => (c.manager.slotWorker workerId).map fun worker =>
      { c with pc := .deleted, events := c.events ++ [.delete worker] }
  | .deleted => none

/-- What the child has done in its life, if a termination signal ends it now. -/
def terminate (c : WorkerProcess) : Except Fault (List WorkerEvent) := do
  let actions ← c.manager.shutdown true
  return c.events ++ actions.map ShutdownAction.event

end WorkerProcess

namespace Manager

/-! ## The worker of a slot -/

theorem slotWorker_modifySlot (m : Manager) (i : Nat) (f : WorkerPool → WorkerPool) :
    (m.modifySlot i f).slotWorker i = ((m.workerPool.getD [])[i]?).map (fun slot => (f slot).worker) := by
  unfold slotWorker modifySlot
  cases m.workerPool with
  | none => rfl
  | some pool => simp [Function.comp_def]

/-- A write that leaves the worker of the slot. -/
theorem slotWorker_modifySlot_of_eq {m : Manager} {i : Nat} {f : WorkerPool → WorkerPool} (h : ∀ slot, (f slot).worker = slot.worker) :
    (m.modifySlot i f).slotWorker i = m.slotWorker i := by
  rw [slotWorker_modifySlot]
  simp only [h]
  rfl

/-- In a worker, `shutdown` deletes the worker of the slot that `worker_id` names. -/
theorem shutdown_worker {m : Manager} (hworker : m.worker = true) {worker : Nat} (hslot : m.slotWorker m.workerId = some worker)
    (graceful : Bool) : m.shutdown graceful = .ok [.delete worker] := by
  obtain ⟨slot, hget, rfl⟩ := Option.map_eq_some_iff.mp hslot
  rcases hpool : m.workerPool with _ | pool
  · simp [hpool] at hget
  · rw [hpool, Option.getD_some] at hget
    simp only [shutdown, hpool, hworker, if_true, hget]

/-- In a worker without that slot, `shutdown` fails. -/
theorem shutdown_worker_none {m : Manager} (hworker : m.worker = true) (hslot : m.slotWorker m.workerId = none) (graceful : Bool) :
    ∃ fault, m.shutdown graceful = .error fault := by
  rcases hpool : m.workerPool with _ | pool
  · exact ⟨.nullPointer, by simp [shutdown, hpool, hworker]⟩
  · rw [slotWorker, hpool, Option.getD_some, Option.map_eq_none_iff] at hslot
    exact ⟨.outOfRange, by simp only [shutdown, hpool, hworker, if_true, hslot]⟩

end Manager

end BitzServer
