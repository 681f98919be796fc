import BitzServer.Server.Process
import BitzServer.Server.Worker

/-!
# The service

The manager process, its workers and the connections to the port that they share. Between any two statements of the manager a client may
connect, and each worker may accept a connection, serve a request, end or be killed.
-/

namespace BitzServer

/-- A connection in a worker: its number, the stream as the client has made it, `max_requests` when it was accepted, the passes of
`serve_client` since then and the stream behind them. -/
structure Session where
  id : Nat
  start : Conn
  budget : UInt32
  events : List Worker.LoopEvent
  sock : Conn

/-- A child in `Worker::run`: `max_requests`, what has been taken from it, and the connection that it serves. -/
structure Child where
  maxRequests : UInt32
  events : List Worker.LoopEvent
  session : Option Session

/-- A connection that is closed, with what `serve_client` has returned; none if the worker was killed in it. -/
structure ClosedSession where
  session : Session
  returned : Option UInt32

/-- A worker that is gone; whether `run` has returned. -/
structure EndedChild where
  child : Child
  returned : Bool

/-- The manager process, the workers by their pids, all connections in the order in which they were made, the numbers of those that wait
to be accepted and of those that were accepted but not served, as their timeout could not be set, and what is over. -/
structure Service where
  manager : ManagerProcess
  children : Int → Option Child
  arrivals : List Conn
  queue : List Nat
  abandoned : List Nat
  closed : List ClosedSession
  ended : List EndedChild

inductive ServiceAction where
  /-- a client connects -/
  | connect (sock : Conn)
  /-- a worker accepts the connection that has waited longest -/
  | accept (pid : Int)
  /-- `accept` throws in a worker -/
  | acceptFailed (pid : Int)
  /-- a worker accepts the connection that has waited longest, and `timeout` throws -/
  | timeoutFailed (pid : Int)
  /-- a pass of the loop of `serve_client` in a worker -/
  | serve (pid : Int)
  /-- `run` has returned in a worker, which exits -/
  | leave (pid : Int)
  /-- a worker ends at any other point -/
  | kill (pid : Int)
  /-- a step of the manager, or a signal to it -/
  | manage (a : Action)

/-- The connection as it is accepted. -/
def Session.accept (id : Nat) (sock : Conn) (maxRequests : UInt32) : Session :=
  { id := id, start := sock, budget := maxRequests, events := [], sock := sock }

/-- The connection after a pass. -/
def Session.push (session : Session) (event : Worker.LoopEvent) (sock : Conn) : Session :=
  { session with events := session.events ++ [event], sock := sock }

/-- A child before `run`. -/
def Child.new (maxWorkerRequests : UInt32) : Child := { maxRequests := maxWorkerRequests, events := [], session := none }

/-- `--max_requests` for a pass. -/
def Child.spend (child : Child) (pass : Option Pass) (session : Option Session) : Child :=
  { maxRequests := child.maxRequests - 1, events := child.events ++ [{ maxRequests := child.maxRequests, pass := pass }], session := session }

namespace Service

def new : Service where
  manager := ManagerProcess.new
  children _ := none
  arrivals := []
  queue := []
  abandoned := []
  closed := []
  ended := []

def setChild (s : Service) (pid : Int) (child : Option Child) : Service := { s with children := Function.update s.children pid child }

/-- `server_sock->accept()` -/
def accept (s : Service) (pid : Int) (child : Child) : Option Service :=
  match child.session, s.queue with
  | none, id :: queue => do
    let sock ← s.arrivals[id]?
    if 0 < child.maxRequests then
      let child := { child with session := some (Session.accept id sock child.maxRequests) }
      some { s.setChild pid (some child) with queue := queue }
    else none
  | _, _ => none

/-- `accept` has thrown: `max_requests--; continue` -/
def acceptFailed (s : Service) (pid : Int) (child : Child) : Option Service :=
  match child.session with
  | none => if 0 < child.maxRequests then some (s.setChild pid (some (child.spend none none))) else none
  | some _ => none

/-- `client_sock->timeout( comm_timeout, 0 )` has thrown: `max_requests--; continue`, and `client_sock` is not deleted -/
def timeoutFailed (s : Service) (pid : Int) (child : Child) : Option Service :=
  match child.session, s.queue with
  | none, id :: queue =>
    if 0 < child.maxRequests then
      some { s.setChild pid (some (child.spend none none)) with queue := queue, abandoned := s.abandoned ++ [id] }
    else none
  | _, _ => none

/-- A pass of the loop of `serve_client`, behind which the worker closes the connection unless the loop goes on. -/
def serve (worker : Worker) (s : Service) (pid : Int) (child : Child) : Option Service := do
  let session ← child.session
  match worker.servePass.run session.sock with
  | .error _ => none
  | .ok (pass, sock) =>
    let session := session.push { maxRequests := child.maxRequests, pass := some pass } sock
    if 0 < child.maxRequests - 1 ∧ pass.goesOn = true then some (s.setChild pid (some (child.spend pass (some session))))
    else
      let s := s.setChild pid (some (child.spend pass none))
      some { s with closed := s.closed ++ [{ session := session, returned := some (child.maxRequests - 1) }] }

/-- The end of a worker, and of the connection that it serves. -/
def endChild (n : Nat) (s : Service) (pid : Int) (child : Child) (returned : Bool) : Option Service := do
  let manager ← s.manager.step n (.exit pid)
  let closed := s.closed ++ (child.session.map fun session => { session := session, returned := none }).toList
  some { s.setChild pid none with manager := manager, closed := closed, ended := s.ended ++ [{ child := child, returned := returned }] }

/-- `fork` makes a child. -/
def fork (maxWorkerRequests : UInt32) (children : Int → Option Child) : Action → Int → Option Child
  | .fork (some pid) => Function.update children pid (some (Child.new maxWorkerRequests))
  | _ => children

def step (worker : Worker) (n : Nat) (maxWorkerRequests : UInt32) (s : Service) : ServiceAction → Option Service
  | .connect sock => some { s with arrivals := s.arrivals ++ [sock], queue := s.queue ++ [s.arrivals.length] }
  | .accept pid => (s.children pid).bind (s.accept pid)
  | .acceptFailed pid => (s.children pid).bind (s.acceptFailed pid)
  | .timeoutFailed pid => (s.children pid).bind (s.timeoutFailed pid)
  | .serve pid => (s.children pid).bind (s.serve worker pid)
  | .leave pid => do
    let child ← s.children pid
    if child.session.isNone ∧ child.maxRequests = 0 then s.endChild n pid child true else none
  | .kill pid => do
    let child ← s.children pid
    s.endChild n pid child false
  | .manage (.exit _) => none
  | .manage a => do
    let manager ← s.manager.step n a
    some { s with manager := manager, children := fork maxWorkerRequests s.children a }

/-! ## What a step can do -/

/-- The steps, one by one. -/
inductive StepCases (worker : Worker) (n : Nat) (maxWorkerRequests : UInt32) (s : Service) : Service → Prop
  | connect (sock : Conn) : StepCases worker n maxWorkerRequests s
      { s with arrivals := s.arrivals ++ [sock], queue := s.queue ++ [s.arrivals.length] }
  | accept {pid : Int} {child : Child} {id : Nat} {queue : List Nat} {sock : Conn} (hchild : s.children pid = some child)
      (hidle : child.session = none) (hqueue : s.queue = id :: queue) (hsock : s.arrivals[id]? = some sock)
      (hpos : 0 < child.maxRequests) : StepCases worker n maxWorkerRequests s
      { s.setChild pid (some { child with session := some (Session.accept id sock child.maxRequests) }) with queue := queue }
  | acceptFailed {pid : Int} {child : Child} (hchild : s.children pid = some child) (hidle : child.session = none)
      (hpos : 0 < child.maxRequests) : StepCases worker n maxWorkerRequests s (s.setChild pid (some (child.spend none none)))
  | timeoutFailed {pid : Int} {child : Child} {id : Nat} {queue : List Nat} (hchild : s.children pid = some child)
      (hidle : child.session = none) (hqueue : s.queue = id :: queue) (hpos : 0 < child.maxRequests) :
      StepCases worker n maxWorkerRequests s
      { s.setChild pid (some (child.spend none none)) with queue := queue, abandoned := s.abandoned ++ [id] }
  | goesOn {pid : Int} {child : Child} {session : Session} {pass : Pass} {sock : Conn} (hchild : s.children pid = some child)
      (hsession : child.session = some session) (hpass : worker.servePass.run session.sock = .ok (pass, sock))
      (hpos : 0 < child.maxRequests - 1) (hgoes : pass.goesOn = true) : StepCases worker n maxWorkerRequests s
      (s.setChild pid (some (child.spend pass (some (session.push { maxRequests := child.maxRequests, pass := some pass } sock)))))
  | returns {pid : Int} {child : Child} {session : Session} {pass : Pass} {sock : Conn} (hchild : s.children pid = some child)
      (hsession : child.session = some session) (hpass : worker.servePass.run session.sock = .ok (pass, sock))
      (hlast : child.maxRequests - 1 = 0 ∨ pass.goesOn = false) : StepCases worker n maxWorkerRequests s
      { s.setChild pid (some (child.spend pass none)) with
        closed := s.closed ++ [{
          session := session.push { maxRequests := child.maxRequests, pass := some pass } sock
          returned := some (child.maxRequests - 1) }] }
  | ends {pid : Int} {child : Child} {manager : ManagerProcess} {returned : Bool} (hchild : s.children pid = some child)
      (hreturned : returned = true → child.session = none ∧ child.maxRequests = 0) (hexit : s.manager.step n (.exit pid) = some manager) :
      StepCases worker n maxWorkerRequests s
      { s.setChild pid none with
        manager := manager
        closed := s.closed ++ (child.session.map fun session => { session := session, returned := none }).toList
        ended := s.ended ++ [{ child := child, returned := returned }] }
  | manage {a : Action} {manager : ManagerProcess} (ha : ∀ pid, a ≠ .exit pid) (hmanager : s.manager.step n a = some manager) :
      StepCases worker n maxWorkerRequests s { s with manager := manager, children := fork maxWorkerRequests s.children a }

variable {worker : Worker} {n : Nat} {maxWorkerRequests : UInt32} {s s' : Service} {pid : Int} {child : Child}

theorem accept_cases (hchild : s.children pid = some child) (h : s.accept pid child = some s') :
    StepCases worker n maxWorkerRequests s s' := by
  unfold accept at h
  split at h
  case h_1 id queue hidle hqueue =>
    obtain ⟨sock, hsock, h⟩ := Option.bind_eq_some_iff.mp h
    obtain ⟨hpos, heq⟩ := Option.ite_none_right_eq_some.mp h
    exact Option.some.inj heq ▸ .accept hchild hidle hqueue hsock hpos
  case h_2 => exact absurd h (by simp)

theorem acceptFailed_cases (hchild : s.children pid = some child) (h : s.acceptFailed pid child = some s') :
    StepCases worker n maxWorkerRequests s s' := by
  unfold acceptFailed at h
  split at h
  case h_1 hidle =>
    obtain ⟨hpos, heq⟩ := Option.ite_none_right_eq_some.mp h
    exact Option.some.inj heq ▸ .acceptFailed hchild hidle hpos
  case h_2 => exact absurd h (by simp)

theorem timeoutFailed_cases (hchild : s.children pid = some child) (h : s.timeoutFailed pid child = some s') :
    StepCases worker n maxWorkerRequests s s' := by
  unfold timeoutFailed at h
  split at h
  case h_1 id queue hidle hqueue =>
    obtain ⟨hpos, heq⟩ := Option.ite_none_right_eq_some.mp h
    exact Option.some.inj heq ▸ .timeoutFailed hchild hidle hqueue hpos
  case h_2 => exact absurd h (by simp)

theorem serve_cases (hchild : s.children pid = some child) (h : s.serve worker pid child = some s') :
    StepCases worker n maxWorkerRequests s s' := by
  obtain ⟨session, hsession, h⟩ := Option.bind_eq_some_iff.mp h
  split at h
  case h_1 => exact absurd h (by simp)
  case h_2 pass sock hpass =>
    by_cases hgoes : 0 < child.maxRequests - 1 ∧ pass.goesOn = true
    · rw [if_pos hgoes] at h
      exact Option.some.inj h ▸ .goesOn hchild hsession hpass hgoes.1 hgoes.2
    · rw [if_neg hgoes] at h
      refine Option.some.inj h ▸ .returns hchild hsession hpass ?_
      by_cases hzero : child.maxRequests - 1 = 0
      · exact .inl hzero
      · exact .inr (Bool.eq_false_iff.mpr fun hpass => hgoes ⟨UInt32.pos_iff_ne_zero.mpr hzero, hpass⟩)

theorem endChild_cases {returned : Bool} (hchild : s.children pid = some child)
    (hreturned : returned = true → child.session = none ∧ child.maxRequests = 0) (h : s.endChild n pid child returned = some s') :
    StepCases worker n maxWorkerRequests s s' := by
  obtain ⟨manager, hexit, heq⟩ := Option.bind_eq_some_iff.mp h
  exact Option.some.inj heq ▸ .ends hchild hreturned hexit

/-- A step is one of them. -/
theorem step_cases {a : ServiceAction} (h : s.step worker n maxWorkerRequests a = some s') : StepCases worker n maxWorkerRequests s s' := by
  cases a with
  | connect sock => exact Option.some.inj h ▸ .connect sock
  | accept pid =>
    obtain ⟨child, hchild, h⟩ := Option.bind_eq_some_iff.mp h
    exact accept_cases hchild h
  | acceptFailed pid =>
    obtain ⟨child, hchild, h⟩ := Option.bind_eq_some_iff.mp h
    exact acceptFailed_cases hchild h
  | timeoutFailed pid =>
    obtain ⟨child, hchild, h⟩ := Option.bind_eq_some_iff.mp h
    exact timeoutFailed_cases hchild h
  | serve pid =>
    obtain ⟨child, hchild, h⟩ := Option.bind_eq_some_iff.mp h
    exact serve_cases hchild h
  | leave pid =>
    obtain ⟨child, hchild, h⟩ := Option.bind_eq_some_iff.mp h
    obtain ⟨hdone, h⟩ := Option.ite_none_right_eq_some.mp h
    exact endChild_cases hchild (fun _ => ⟨Option.isNone_iff_eq_none.mp hdone.1, hdone.2⟩) h
  | kill pid =>
    obtain ⟨child, hchild, h⟩ := Option.bind_eq_some_iff.mp h
    refine endChild_cases hchild ?_ h
    exact nofun
  | manage a =>
    have hmanage : ∀ a : Action, (∀ pid, a ≠ .exit pid) → (do
        let manager ← s.manager.step n a
        some { s with manager := manager, children := fork maxWorkerRequests s.children a }) = some s' →
        StepCases worker n maxWorkerRequests s s' := by
      intro a ha h
      obtain ⟨manager, hmanager, heq⟩ := Option.bind_eq_some_iff.mp h
      exact Option.some.inj heq ▸ .manage ha hmanager
    cases a with
    | exit pid => exact absurd h nofun
    | run => exact hmanage _ (by simp) h
    | alloc memory => exact hmanage _ (by simp) h
    | fork result => exact hmanage _ (by simp) h
    | notify => exact hmanage _ (by simp) h
    | sigchld order => exact hmanage _ (by simp) h
    | terminate => exact hmanage _ (by simp) h

end Service

end BitzServer
