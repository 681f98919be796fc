import BitzServer.Icap.HeaderBlock
import BitzServer.Server.RequestHandler

/-!
# Workers

`Worker::run` and `Worker::serve_client`: one connection after the other, and the requests of a connection, one after the other, as
long as the client keeps the connection alive.
-/

namespace BitzServer

open Feed

/-- `bitz::Worker`: the request handlers by method -/
structure Worker where
  reqHandlers : List (Bytes × RequestHandler)

namespace Worker

/-- `load_req_handlers`, given the modifiers that the two handlers load -/
def loadReqHandlers (reqmod respmod : List Handler) : List (Bytes × RequestHandler) :=
  let optionsHandler := RequestHandler.options []
  let optionsHandler := optionsHandler.registerHandler (bytes "REQMOD")
  let optionsHandler := optionsHandler.registerHandler (bytes "RESPMOD")
  let reqHandlers := KeyMap.set (bytes "OPTIONS") optionsHandler []
  let reqHandlers := KeyMap.set (bytes "REQMOD") (.modifiers reqmod) reqHandlers
  KeyMap.set (bytes "RESPMOD") (.modifiers respmod) reqHandlers

/-- `Worker::Worker` -/
def new (reqmod respmod : List Handler) : Worker := { reqHandlers := loadReqHandlers reqmod respmod }

/-- `util::find_req_handler` -/
def findReqHandler (worker : Worker) (reqMethod : Bytes) : Option RequestHandler := worker.reqHandlers.lookup reqMethod

end Worker

/-- A pass of the loop of `serve_client`: what was unread when it began, the request header it has read, and the response it has
sent, none after a timeout. -/
structure Pass where
  start : Bytes
  reqHeader : RequestHeader
  response : Option Response

/-- The value of the `Connection` header is `keep-alive`. -/
def RequestHeader.keepsAlive (reqHeader : RequestHeader) : Bool := reqHeader.value (bytes "Connection") == bytes "keep-alive"

/-- The loop goes on after the pass, as far as the request is concerned. -/
def Pass.goesOn (pass : Pass) : Bool := pass.response.isSome && pass.reqHeader.keepsAlive

namespace Worker

/-- What `serve_client` does with a request header: the handler of the method, if there is one, answers. -/
def respond (worker : Worker) (reqHeader : RequestHeader) : SockM (RequestHeader × Response) := do
  match worker.findReqHandler reqHeader.request.method with
  | some reqHandler => do
    let outcome ← reqHandler.process reqHeader
    return (outcome.reqHeader, outcome.response)
  | none => return (reqHeader, ← Response.new (some (← ResponseHeader.new .notAllowed)))

/-- The end of a pass of `serve_client`: the response is sent, and says that the connection is kept if the request says so. -/
def answer (reqHeader : RequestHeader) (response : Response) : SockM Response := do
  let h ← (if reqHeader.keepsAlive then liftM (response.header.attach (bytes "Connection") (bytes "keep-alive"))
    else pure response.header.toHeader : SockM Header)
  let response := { response with header := { response.header with toHeader := h } }
  let _ ← sendResponse response
  return response

/-- One pass of the loop of `serve_client`. -/
def servePass (worker : Worker) : SockM Pass := do
  let start := (← get).unread
  let reqHeader ← readReqHeader
  if ← timedout then return { start := start, reqHeader := reqHeader, response := none }
  else
    let (reqHeader, response) ← worker.respond reqHeader
    return { start := start, reqHeader := reqHeader, response := some (← answer reqHeader response) }

/-- The loop of `serve_client`, given `max_requests` as it is decremented after the next pass; also the passes. -/
def serveClientLoop (worker : Worker) : Nat → SockM (Nat × List Pass)
  | 0 => do return (0, [← worker.servePass])
  | maxRequests + 1 => do
    let pass ← worker.servePass
    if pass.goesOn then
      let (left, passes) ← serveClientLoop worker maxRequests
      return (left, pass :: passes)
    else return (maxRequests + 1, [pass])

/-- `serve_client`: `max_requests` less the requests, and the passes; `unsigned int` wraps around below 0 -/
def serveClient (worker : Worker) (maxRequests : Nat) : SockM (Nat × List Pass) :=
  worker.serveClientLoop (toUInt32 (maxRequests + (2 ^ 32 - 1)))

/-- A pass of the loops of `run` and `serve_client` that decrements `max_requests`: its value before, and the pass of `serve_client`,
none where no connection was accepted. -/
structure LoopEvent where
  maxRequests : UInt32
  pass : Option Pass

/-- The loop of `serve_client` as it counts: `max_requests` is decremented after the pass. It goes around at most as often as an
`unsigned int` has values. -/
def serveClientPasses (worker : Worker) : Nat → UInt32 → SockM (UInt32 × List LoopEvent)
  | 0, _ => throw .diverges
  | fuel + 1, maxRequests => do
    let pass ← worker.servePass
    let event := { maxRequests := maxRequests, pass := some pass }
    let maxRequests := maxRequests - 1
    match pass.response with
    | none => return (maxRequests, [event])
    | some _ =>
      if maxRequests > 0 ∧ pass.reqHeader.keepsAlive = true then
        let (left, events) ← serveClientPasses worker fuel maxRequests
        return (left, event :: events)
      else return (maxRequests, [event])

/-- The same loop for a worker whose modifiers do not answer in every pass as in the one before: the worker as it is in each pass. -/
def servePasses : (Nat → Worker) → Nat → UInt32 → SockM (UInt32 × List LoopEvent)
  | _, 0, _ => throw .diverges
  | workers, fuel + 1, maxRequests => do
    let pass ← (workers 0).servePass
    let event := { maxRequests := maxRequests, pass := some pass }
    let maxRequests := maxRequests - 1
    match pass.response with
    | none => return (maxRequests, [event])
    | some _ =>
      if maxRequests > 0 ∧ pass.reqHeader.keepsAlive = true then
        let (left, events) ← servePasses (fun i => workers (i + 1)) fuel maxRequests
        return (left, event :: events)
      else return (maxRequests, [event])

/-- The loop of `run`, with the connection that each call of `accept` gives; none where `accept` throws, or the connection is not served
as `timeout` throws. -/
def runLoop (worker : Worker) (accept : Nat → Option Conn) : Nat → Nat → UInt32 → Except Fault (List LoopEvent)
  | 0, _, _ => .error .diverges
  | fuel + 1, calls, maxRequests =>
    if maxRequests > 0 then
      match accept calls with
      | none => do
        let events ← runLoop worker accept fuel (calls + 1) (maxRequests - 1)
        return { maxRequests := maxRequests, pass := none } :: events
      | some clientSock => do
        let ((left, served), _) ← (worker.serveClientPasses UInt32.size maxRequests).run clientSock
        let events ← runLoop worker accept fuel (calls + 1) left
        return served ++ events
    else return []

/-- `Worker::run`: the passes that decrement `max_requests`. -/
def run (worker : Worker) (accept : Nat → Option Conn) (maxRequests : UInt32) : Except Fault (List LoopEvent) :=
  worker.runLoop accept UInt32.size 0 maxRequests

/-- A worker that does not change is served by `serve_client`. -/
theorem servePasses_const (worker : Worker) : ∀ (fuel : Nat) (maxRequests : UInt32),
    servePasses (fun _ => worker) fuel maxRequests = worker.serveClientPasses fuel maxRequests
  | 0, _ => rfl
  | fuel + 1, maxRequests => by simp only [servePasses, serveClientPasses, servePasses_const worker fuel]

/-! ## Serving returns on every stream -/

/-- The three methods with a handler. -/
theorem findReqHandler_new (reqmod respmod : List Handler) (method : Bytes) : (new reqmod respmod).findReqHandler method =
    if method = bytes "RESPMOD" then some (.modifiers respmod)
    else if method = bytes "REQMOD" then some (.modifiers reqmod)
    else if method = bytes "OPTIONS" then some (.options [bytes "REQMOD", bytes "RESPMOD"])
    else none := by
  unfold findReqHandler new loadReqHandlers
  by_cases h1 : method = bytes "RESPMOD"
  · rw [if_pos h1, h1]
    exact KeyMap.lookup_set_self _ _ _
  rw [if_neg h1]
  refine (KeyMap.lookup_set_of_ne _ h1 _).trans ?_
  by_cases h2 : method = bytes "REQMOD"
  · rw [if_pos h2, h2]
    exact KeyMap.lookup_set_self _ _ _
  rw [if_neg h2]
  refine (KeyMap.lookup_set_of_ne _ h2 _).trans ?_
  by_cases h3 : method = bytes "OPTIONS"
  · rw [if_pos h3, h3]
    exact KeyMap.lookup_set_self _ _ _
  · rw [if_neg h3]
    exact KeyMap.lookup_set_of_ne _ h3 _

/-- Where no request data is read, the header comes back as it was. -/
theorem respond_keeps {worker : Worker} {reqHeader : RequestHeader}
    (h : worker.findReqHandler reqHeader.request.method = none ∨
      ∃ methods, methods ≠ [] ∧ worker.findReqHandler reqHeader.request.method = some (.options methods)) :
    Returns Conn.KeepsInput (fun r => r.1 = reqHeader) (worker.respond reqHeader) := by
  unfold respond
  rcases h with hnone | ⟨methods, hne, hoptions⟩
  · rw [hnone]
    refine Returns.bind (ResponseHeader.new_returns _) fun _ _ => ?_
    exact Returns.bind (Q := fun _ => True) (Within.pure _) fun _ _ => Returns.pure rfl
  · rw [hoptions]
    exact Returns.bind (processOptions_returns hne reqHeader) fun _ ho => Returns.pure ho

theorem respond_within (reqmod respmod : List Handler) (reqHeader : RequestHeader) :
    Within Conn.Shrinks ((new reqmod respmod).respond reqHeader) := by
  have hmodifiers : ∀ handlers, (new reqmod respmod).findReqHandler reqHeader.request.method = some (.modifiers handlers) →
      Within Conn.Shrinks ((new reqmod respmod).respond reqHeader) := by
    intro handlers hfind
    unfold respond
    rw [hfind]
    exact Within.bind (process_within handlers reqHeader) fun _ => Within.pure _
  have hkeeps : (new reqmod respmod).findReqHandler reqHeader.request.method = none ∨ (∃ methods, methods ≠ [] ∧
      (new reqmod respmod).findReqHandler reqHeader.request.method = some (.options methods)) →
      Within Conn.Shrinks ((new reqmod respmod).respond reqHeader) :=
    fun h => Returns.mono (respond_keeps h) Conn.KeepsInput.shrinks fun _ _ => trivial
  have hfind := findReqHandler_new reqmod respmod reqHeader.request.method
  by_cases h1 : reqHeader.request.method = bytes "RESPMOD"
  · exact hmodifiers _ (hfind.trans (if_pos h1))
  by_cases h2 : reqHeader.request.method = bytes "REQMOD"
  · exact hmodifiers _ (hfind.trans ((if_neg h1).trans (if_pos h2)))
  rw [if_neg h1, if_neg h2] at hfind
  by_cases h3 : reqHeader.request.method = bytes "OPTIONS"
  · exact hkeeps (.inr ⟨_, List.cons_ne_nil _ _, hfind.trans (if_pos h3)⟩)
  · exact hkeeps (.inl (hfind.trans (if_neg h3)))

/-- What is done with the response of a request reads nothing. -/
theorem answer_within (reqHeader : RequestHeader) (response : Response) : Within Conn.KeepsInput (answer reqHeader response) := by
  refine Within.bind (R := Conn.KeepsInput) ?_ fun h => Within.bind (sendResponse_within _) fun _ => Within.pure _
  split
  · exact Within.lift (Header.attach_of_ne (by decide) _ _)
  · exact Within.pure _

/-- A pass returns on every stream, and says where it began. -/
theorem servePass_run (reqmod respmod : List Handler) (s : Conn) : ∃ pass s',
    (new reqmod respmod).servePass.run s = .ok (pass, s') ∧ s.Shrinks s' ∧ pass.start = s.unread := by
  obtain ⟨h, s1, hrun1, hs1⟩ := readReqHeader_run s
  have hrest : Returns Conn.Shrinks (fun pass => pass.start = s.unread) (do
      if ← timedout then return { start := s.unread, reqHeader := h, response := none }
      else
        let (reqHeader, response) ← (new reqmod respmod).respond h
        return { start := s.unread, reqHeader := reqHeader, response := some (← answer reqHeader response) } : SockM Pass) := by
    refine Returns.bind (Within.mono timedout_within Conn.KeepsInput.shrinks) fun out _ => ?_
    split
    · exact Returns.pure rfl
    · refine Returns.bind (respond_within reqmod respmod h) fun r _ => ?_
      exact Returns.bind (Within.mono (answer_within r.1 r.2) Conn.KeepsInput.shrinks) fun _ _ => Returns.pure rfl
  obtain ⟨pass, s2, hrun2, hs2, hstart⟩ := hrest s1
  refine ⟨pass, s2, ?_, IsTrans.trans _ _ _ hs1 hs2, hstart⟩
  rw [servePass, run_bind_of_ok (show (get : SockM Conn).run s = .ok (s, s) from rfl), run_bind_of_ok hrun1]
  exact hrun2

/-- The loop returns after a pass that does not go on, and after the last one. -/
theorem serveClientLoop_last {worker : Worker} {maxRequests : Nat} {pass : Pass} {s s' : Conn}
    (hpass : worker.servePass.run s = .ok (pass, s')) (hlast : maxRequests = 0 ∨ pass.goesOn = false) :
    (worker.serveClientLoop maxRequests).run s = .ok ((maxRequests, [pass]), s') := by
  cases maxRequests with
  | zero =>
    rw [serveClientLoop, run_bind_of_ok hpass]
    rfl
  | succ maxRequests =>
    have hstops : ¬pass.goesOn = true := by simpa using hlast.resolve_left (Nat.succ_ne_zero _)
    rw [serveClientLoop, run_bind_of_ok hpass, if_neg hstops]
    rfl

/-- After a pass that goes on, the loop runs from where the pass has left the stream. -/
theorem serveClientLoop_goesOn {worker : Worker} {maxRequests left : Nat} {pass : Pass} {passes : List Pass} {s s1 s' : Conn}
    (hpass : worker.servePass.run s = .ok (pass, s1)) (hgoes : pass.goesOn = true)
    (hrun : (worker.serveClientLoop maxRequests).run s1 = .ok ((left, passes), s')) :
    (worker.serveClientLoop (maxRequests + 1)).run s = .ok ((left, pass :: passes), s') := by
  rw [serveClientLoop, run_bind_of_ok hpass, if_pos hgoes, run_bind_of_ok hrun]
  rfl

/-- The loop of `serve_client` returns on every stream, and its first pass begins where the stream is. -/
theorem serveClientLoop_run (reqmod respmod : List Handler) : ∀ (maxRequests : Nat) (s : Conn), ∃ left pass passes s',
    ((new reqmod respmod).serveClientLoop maxRequests).run s = .ok ((left, pass :: passes), s') ∧ s.Shrinks s' ∧
      pass.start = s.unread
  | 0, s => by
    obtain ⟨pass, s', hrun, hs', hstart⟩ := servePass_run reqmod respmod s
    exact ⟨0, pass, [], s', serveClientLoop_last hrun (.inl rfl), hs', hstart⟩
  | maxRequests + 1, s => by
    obtain ⟨pass, s1, hrun1, hs1, hstart⟩ := servePass_run reqmod respmod s
    by_cases hgoes : pass.goesOn = true
    · obtain ⟨left, pass', passes, s2, hrun2, hs2, -⟩ := serveClientLoop_run reqmod respmod maxRequests s1
      exact ⟨left, pass, pass' :: passes, s2, serveClientLoop_goesOn hrun1 hgoes hrun2, IsTrans.trans _ _ _ hs1 hs2, hstart⟩
    · exact ⟨maxRequests + 1, pass, [], s1, serveClientLoop_last hrun1 (.inr (by simpa using hgoes)), hs1, hstart⟩

end Worker

end BitzServer
