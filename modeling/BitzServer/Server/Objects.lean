import BitzServer.Lib.Heap
import BitzServer.Server.Worker

/-!
# The objects of a worker

`bitz::Worker::run` and what it calls, with the objects that they make with `new`, use through pointers and delete.
-/

namespace BitzServer

/-- What ends a run on objects: what may end it without them, or the use of an object that is not there. -/
inductive ObjectFault where
  | code (fault : Fault)
  | dangling

/-- An object. A request and a response have the address of their header; `_cleanup_header` says whether a response deletes it. -/
inductive Object where
  | requestHeader (header : RequestHeader)
  | request (header : Nat) (payload : Payload)
  | responseHeader (header : ResponseHeader)
  | response (header : Nat) (cleanupHeader : Bool) (payload : Payload)
  | modifier (modifier : Modifier)
  | clientSock

/-- The classes of the objects. -/
inductive ObjectClass where
  | requestHeader
  | request
  | responseHeader
  | response
  | modifier
  | clientSock
  deriving DecidableEq

def Object.objectClass : Object → ObjectClass
  | requestHeader _ => .requestHeader
  | request _ _ => .request
  | responseHeader _ => .responseHeader
  | response _ _ _ => .response
  | modifier _ => .modifier
  | clientSock => .clientSock

/-- A program on objects and on the client stream. -/
abbrev ObjectM := StateT (Heap Object × Conn) (Except ObjectFault)

/-- The response of a modifier, by the method that is called. -/
def Modifier.respond (modifier : Modifier) : Operation → Request → Response
  | .preview => modifier.preview
  | .modify => modifier.modify

namespace Objects

/-- A program on the client stream. -/
def onSock {α : Type} (p : SockM α) : ObjectM α := Heap.onRest .code p

/-! ## Through pointers -/

def loadRequestHeader (p : Nat) : ObjectM RequestHeader := do
  match ← Heap.load .dangling p with
  | .requestHeader header => return header
  | _ => throw .dangling

def loadResponseHeader (p : Nat) : ObjectM ResponseHeader := do
  match ← Heap.load .dangling p with
  | .responseHeader header => return header
  | _ => throw .dangling

/-- A request with its header. -/
def loadRequest (p : Nat) : ObjectM Request := do
  match ← Heap.load .dangling p with
  | .request header payload => return { header := ← loadRequestHeader header, payload := payload }
  | _ => throw .dangling

/-- A response with its header. -/
def loadResponse (p : Nat) : ObjectM Response := do
  match ← Heap.load .dangling p with
  | .response header _ payload => return { header := ← loadResponseHeader header, payload := payload }
  | _ => throw .dangling

/-- `Request::payload` with an argument: the request and its header. -/
def storeRequest (p : Nat) (request : Request) : ObjectM Unit := do
  match ← Heap.load .dangling p with
  | .request header _ => do
    Heap.store .dangling p (.request header request.payload)
    Heap.store .dangling header (.requestHeader request.header)
  | _ => throw .dangling

/-- `attach` on the header of a response -/
def attachTo (header : Nat) (key value : Bytes) : ObjectM Unit := do
  let h ← loadResponseHeader header
  let attached ← onSock (liftM (h.toHeader.attach key value))
  Heap.store .dangling header (.responseHeader { h with toHeader := attached })

/-- `new` of a header, and of a response with it. -/
def newResponse (cleanupHeader : Bool) (response : Response) : ObjectM Nat := do
  let header ← Heap.alloc (.responseHeader response.header)
  Heap.alloc (.response header cleanupHeader response.payload)

/-- `new icap::Response( status )`: the response deletes its header. -/
def newStatusResponse (status : Status) : ObjectM Nat := do
  newResponse true (← onSock (Response.ofStatus status))

/-- `delete` of a response, with its destructor -/
def deleteResponse (p : Nat) : ObjectM Unit := do
  match ← Heap.load .dangling p with
  | .response header cleanupHeader _ => do
    if cleanupHeader then Heap.free .dangling header
    Heap.free .dangling p
  | _ => throw .dangling

/-! ## Request data -/

/-- A reader of request data, on a request: what it has read becomes the payload. -/
def readInto (reader : Request → SockM (Request × Bool)) (request : Nat) : ObjectM Bool := do
  let (read, status) ← onSock (reader (← loadRequest request))
  storeRequest request read
  return status

/-- `read_req_data` -/
def readReqData (request : Nat) : ObjectM Bool := readInto BitzServer.readReqData request

/-- `read_req_continue_data` -/
def readReqContinueData (request : Nat) : ObjectM Bool := readInto BitzServer.readReqContinueData request

/-! ## Request handlers -/

section Modifiers

-- whether the response that a modifier makes for a call deletes its header
variable (cleanupHeader : Call → Bool)

/-- A modifier is created, asked for its response and destroyed. -/
def ask (handler : Handler) (operation : Operation) (request : Nat) : ObjectM (Nat × Call) := do
  let modifier ← Heap.alloc (.modifier handler.modifier)
  let asked ← loadRequest request
  let call : Call := { name := handler.name, operation := operation, request := asked }
  let response ← newResponse (cleanupHeader call) (handler.modifier.respond operation asked)
  Heap.free .dangling modifier
  return (response, call)

/-- `process_modify` over the handlers that follow; `response` is the last one so far, which is not deleted. -/
def processModify (request : Nat) : List Handler → Option Nat → ObjectM (Option Nat × List Call)
  | [], response => return (response, [])
  | handler :: handlers, response => do
    if handler.name = [] then processModify request handlers response
    else
      let (modified, call) ← ask cleanupHeader handler .modify request
      if (← loadResponse modified).header.status = .ok then return (some modified, [call])
      else
        let (response, calls) ← processModify request handlers (some modified)
        return (response, call :: calls)

/-- `preview_continue` -/
def previewContinue (response request : Nat) : ObjectM Bool := do
  if (← loadRequest request).payload.ieof then return false
  else
    let sent ← onSock (sendResponse (← loadResponse response))
    if sent then readReqContinueData request else return false

/-- `process_preview` over the handlers that follow; `response` is the last one so far, which is not deleted. -/
def processPreview (request : Nat) : List Handler → Option Nat → ObjectM (Option Nat × List Call)
  | [], response => return (response, [])
  | handler :: handlers, response => do
    if handler.name = [] then processPreview request handlers response
    else
      let (previewed, call) ← ask cleanupHeader handler .preview request
      let status := (← loadResponse previewed).header.status
      if status = .noContent ∨ status = .ok then return (some previewed, [call])
      else if status = .continue then
        let continueStatus ← previewContinue previewed request
        deleteResponse previewed
        if continueStatus then return (none, [call])
        else return (some (← newStatusResponse .serverError), [call])
      else
        let (response, calls) ← processPreview request handlers (some previewed)
        return (response, call :: calls)

/-- The part of `process` behind the reading, as far as the request is there. -/
def processRead (handlers : List Handler) (request : Nat) : ObjectM (Option Nat × List Call) := do
  let (response, previews) ←
    (if (← loadRequest request).previewSize ≥ 0 then processPreview cleanupHeader request handlers none else pure (none, []) :
      ObjectM (Option Nat × List Call))
  match response with
  | some response => return (some response, previews)
  | none =>
    let (response, modifies) ← processModify cleanupHeader request handlers none
    return (response, previews ++ modifies)

/-- `RequestHandler::process` -/
def process (handlers : List Handler) (reqHeader : Nat) : ObjectM (Nat × List Call) := do
  let request ← Heap.alloc (.request reqHeader Payload.empty)
  let (response, calls) ← (do
    if ← readReqData request then processRead cleanupHeader handlers request
    else return (some (← newStatusResponse .serverError), []) : ObjectM (Option Nat × List Call))
  Heap.free .dangling request
  match response with
  | some response => return (response, calls)
  | none => return (← newStatusResponse .serverError, calls)

end Modifiers

/-- `OptionsRequestHandler::process`: the response is given a header that it does not delete. -/
def processOptions (methods : List Bytes) : ObjectM Nat := do
  let header ← Heap.alloc (.responseHeader (← onSock (ResponseHeader.new .ok)))
  attachTo header (bytes "Methods") (← onSock (liftM (vecAt methods 0)))
  attachTo header (bytes "Options-TTL") (bytes "3600")
  attachTo header (bytes "Allow") (bytes "204")
  Heap.alloc (.response header false Payload.empty)

/-! ## The worker -/

/-- What a call of `accept` gives: it throws, or there is a connection, whose timeout cannot be set, or which is served. -/
inductive Accepted where
  | refused
  | untimed
  | ready (clientSock : Conn)

/-- The connection that is served. -/
def Accepted.sock? : Accepted → Option Conn
  | refused => none
  | untimed => none
  | ready clientSock => some clientSock

/-- A pass that decrements `max_requests`, whether there is a connection for it, and the calls of modifiers in it. -/
structure Served where
  event : Worker.LoopEvent
  accepted : Bool
  calls : List Call

section Worker

variable (worker : Worker) (cleanupHeader : Call → Bool)

/-- The response to a request: it is given a header that it does not delete if there is no handler for the request. -/
def respond (reqHeader : Nat) : ObjectM (Nat × List Call) := do
  match worker.findReqHandler (← loadRequestHeader reqHeader).request.method with
  | some (.modifiers handlers) => process cleanupHeader handlers reqHeader
  | some (.options methods) => return (← processOptions methods, [])
  | none => do
    let header ← Heap.alloc (.responseHeader (← onSock (ResponseHeader.new .notAllowed)))
    return (← Heap.alloc (.response header false Payload.empty), [])

/-- The end of a pass of `serve_client`: the response is sent and deleted. -/
def answer (reqHeader response : Nat) : ObjectM Response := do
  if (← loadRequestHeader reqHeader).keepsAlive then
    match ← Heap.load .dangling response with
    | .response header _ _ => attachTo header (bytes "Connection") (bytes "keep-alive")
    | _ => throw .dangling
  let sent ← loadResponse response
  let _ ← onSock (sendResponse sent)
  deleteResponse response
  return sent

/-- A pass of the loop of `serve_client`, with the request header that it makes. -/
def servePass : ObjectM (Nat × Pass × List Call) := do
  let start := (← onSock get).unread
  let reqHeader ← Heap.alloc (.requestHeader (← onSock readReqHeader))
  if ← onSock timedout then
    return (reqHeader, { start := start, reqHeader := ← loadRequestHeader reqHeader, response := none }, [])
  else
    let (response, calls) ← respond worker cleanupHeader reqHeader
    let sent ← answer reqHeader response
    return (reqHeader, { start := start, reqHeader := ← loadRequestHeader reqHeader, response := some sent }, calls)

/-- `serve_client`, with the request header of the pass before, which is deleted first. -/
def serveClient : Nat → UInt32 → Option Nat → ObjectM (UInt32 × List Served)
  | 0, _, _ => throw (.code .diverges)
  | fuel + 1, maxRequests, previous => do
    match previous with
    | some reqHeader => Heap.free .dangling reqHeader
    | none => pure ()
    let (reqHeader, pass, calls) ← servePass worker cleanupHeader
    let served : Served := { event := { maxRequests := maxRequests, pass := some pass }, accepted := true, calls := calls }
    let maxRequests := maxRequests - 1
    match pass.response with
    | none => return (maxRequests, [served])
    | some _ =>
      if maxRequests > 0 ∧ (← loadRequestHeader reqHeader).keepsAlive = true then
        let (left, later) ← serveClient fuel maxRequests (some reqHeader)
        return (left, served :: later)
      else
        Heap.free .dangling reqHeader
        return (maxRequests, [served])

/-- The loop of `run`. A connection whose timeout cannot be set is not deleted. -/
def runLoop (accept : Nat → Accepted) : Nat → Nat → UInt32 → ObjectM (List Served)
  | 0, _, _ => throw (.code .diverges)
  | fuel + 1, calls, maxRequests =>
    if maxRequests > 0 then
      match accept calls with
      | .refused => do
        let later ← runLoop accept fuel (calls + 1) (maxRequests - 1)
        return { event := { maxRequests := maxRequests, pass := none }, accepted := false, calls := [] } :: later
      | .untimed => do
        let _ ← Heap.alloc .clientSock
        let later ← runLoop accept fuel (calls + 1) (maxRequests - 1)
        return { event := { maxRequests := maxRequests, pass := none }, accepted := true, calls := [] } :: later
      | .ready sock => do
        let clientSock ← Heap.alloc .clientSock
        onSock (set sock)
        let (left, served) ← serveClient worker cleanupHeader UInt32.size maxRequests none
        Heap.free .dangling clientSock
        let later ← runLoop accept fuel (calls + 1) left
        return served ++ later
    else return []

/-- `Worker::run` -/
def run (accept : Nat → Accepted) (maxRequests : UInt32) : ObjectM (List Served) :=
  runLoop worker cleanupHeader accept UInt32.size 0 maxRequests

end Worker

end Objects

end BitzServer
