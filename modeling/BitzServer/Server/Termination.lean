import BitzServer.Lib.Runs

/-!
# Termination

`termination_handler` in a process with the handlers of `init_signal_handlers`. A handler runs with all signals blocked: a signal that
becomes pending while it runs is like one that becomes pending behind it, and so is the signal that it raises itself.
-/

namespace BitzServer

/-- The signals that `termination_handler` handles. -/
inductive TerminationSignal where
  | sigterm
  | sigint
  | sigquit
  deriving DecidableEq

/-- `globals.manager`; `delete` leaves the pointer as it is -/
inductive ManagerPointer where
  | null
  | manager
  | dangling
  deriving DecidableEq

/-- What `termination_handler` does with the manager. -/
inductive ManagerCall where
  | shutdown
  | delete
  deriving DecidableEq

/-- A call, and the pointer it is made through. -/
structure ManagerUse where
  call : ManagerCall
  pointer : ManagerPointer
  deriving DecidableEq

/-- The process: the `globals` that the handler reads, the pending signals, those with the default disposition, and what has been done
with the manager. -/
structure ServerProcess where
  manager : ManagerPointer
  terminating : Bool
  pending : List TerminationSignal
  defaults : List TerminationSignal
  uses : List ManagerUse
  ended : Bool
  deriving DecidableEq

/-- What can happen next. -/
inductive ServerAction where
  /-- `start` makes the manager -/
  | start
  /-- a signal becomes pending -/
  | arrive (sig : TerminationSignal)
  /-- a pending signal is delivered -/
  | deliver (sig : TerminationSignal)
  deriving DecidableEq

namespace ServerProcess

/-- `init` -/
def new : ServerProcess :=
  { manager := .null, terminating := false, pending := [], defaults := [], uses := [], ended := false }

/-- A signal that is pending already does not become pending twice. -/
def raise (s : ServerProcess) (sig : TerminationSignal) : ServerProcess := { s with pending := s.pending.insert sig }

/-- `if ( globals.manager != NULL )`: the manager is shut down and deleted. -/
def cleanUpManager (s : ServerProcess) : ServerProcess :=
  if s.manager ≠ .null then
    { s with manager := .dangling, uses := s.uses ++ [⟨.shutdown, s.manager⟩, ⟨.delete, s.manager⟩] }
  else s

/-- `termination_handler`; the `shutdown` of the server closes files and changes nothing here -/
def terminationHandler (s : ServerProcess) (sig : TerminationSignal) : ServerProcess :=
  -- the signal is blocked: `raise` returns and the handler goes on
  let s := if s.terminating then s.raise sig else s
  let s := { s with terminating := true }
  let s := s.cleanUpManager
  let s := { s with defaults := s.defaults.insert sig }
  s.raise sig

/-- The delivery of a signal: the default action ends the process. -/
def handle (s : ServerProcess) (sig : TerminationSignal) : ServerProcess :=
  if sig ∈ s.defaults then { s with ended := true } else s.terminationHandler sig

/-- A step. Once a handler has run, the signal it has raised is delivered before `start` goes on. -/
def step (s : ServerProcess) (a : ServerAction) : Option ServerProcess :=
  if s.ended then none
  else match a with
    | .start => if s.manager = .null ∧ s.terminating = false then some { s with manager := .manager } else none
    | .arrive sig => some (s.raise sig)
    | .deliver sig =>
      if sig ∈ s.pending then some ({ s with pending := s.pending.erase sig }.handle sig) else none

/-! ## What the handler and a step do -/

/-- A manager that is not there is not used. -/
theorem cleanUpManager_of_null {s : ServerProcess} (h : s.manager = .null) : s.cleanUpManager = s := if_neg (not_not.mpr h)

/-- The manager is used through the pointer, whether it is still there or not. -/
theorem cleanUpManager_of_ne_null {s : ServerProcess} (h : s.manager ≠ .null) : s.cleanUpManager =
    { s with manager := .dangling, uses := s.uses ++ [⟨.shutdown, s.manager⟩, ⟨.delete, s.manager⟩] } := if_pos h

/-- The handler does not look at `terminating` before it uses the manager. -/
theorem terminationHandler_spec (s : ServerProcess) (sig : TerminationSignal) : (s.terminationHandler sig).terminating = true ∧
    (s.terminationHandler sig).manager = s.cleanUpManager.manager ∧ (s.terminationHandler sig).uses = s.cleanUpManager.uses := by
  unfold terminationHandler
  by_cases hnull : s.manager = .null <;> by_cases hterm : s.terminating = true <;> simp [cleanUpManager, raise, hnull, hterm]

/-- What a step does to the manager. -/
inductive StepCases (s : ServerProcess) : ServerAction → ServerProcess → Prop where
  | start (hnull : s.manager = .null) (hterm : s.terminating = false) : StepCases s .start { s with manager := .manager }
  | arrive (sig : TerminationSignal) : StepCases s (.arrive sig) (s.raise sig)
  | exit {sig : TerminationSignal} (hdefault : sig ∈ s.defaults) :
      StepCases s (.deliver sig) { s with pending := s.pending.erase sig, ended := true }
  | handle {sig : TerminationSignal} (hdefault : sig ∉ s.defaults) :
      StepCases s (.deliver sig) (terminationHandler { s with pending := s.pending.erase sig } sig)

theorem step_cases {s s' : ServerProcess} {a : ServerAction} (h : s.step a = some s') : StepCases s a s' := by
  obtain ⟨-, h⟩ := Option.ite_none_left_eq_some.mp h
  cases a with
  | start =>
    obtain ⟨⟨hnull, hterm⟩, heq⟩ := Option.ite_none_right_eq_some.mp h
    exact Option.some.inj heq ▸ .start hnull hterm
  | arrive sig => exact Option.some.inj h ▸ .arrive sig
  | deliver sig =>
    obtain ⟨-, heq⟩ := Option.ite_none_right_eq_some.mp h
    obtain rfl := Option.some.inj heq
    unfold handle
    by_cases hdefault : sig ∈ s.defaults
    · rw [if_pos hdefault]
      exact .exit hdefault
    · rw [if_neg hdefault]
      exact .handle hdefault

end ServerProcess

end BitzServer
