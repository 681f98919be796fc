import BitzServer.Icap.ReqData
import BitzServer.Icap.Response

/-!
# Request handlers

`bitz::RequestHandler`, which reads the data of a request and asks its modifiers for a response, and
`bitz::OptionsRequestHandler`, which answers for itself.
-/

namespace BitzServer

open Feed

/-- `bitz::Modifier`: the response it gives for a request, which it leaves alone -/
structure Modifier where
  preview : Request → Response
  modify : Request → Response

/-- `handler_t`: the name is empty if the module could not be loaded -/
structure Handler where
  name : Bytes
  modifier : Modifier

/-- The methods of a modifier. -/
inductive Operation where
  | preview
  | modify
  deriving DecidableEq

/-- A call of a modifier: its name, the method, and the request it is given. -/
structure Call where
  name : Bytes
  operation : Operation
  request : Request

/-- What processing a request leaves: the request header, the response, and the calls of modifiers. -/
structure Outcome where
  reqHeader : RequestHeader
  response : Response
  calls : List Call

/-- The loop of `process_modify` over the modifiers that follow; `response` is the last one so far. -/
def processModify (request : Request) : List Handler → Option Response → Option Response × List Call
  | [], response => (response, [])
  | handler :: handlers, response =>
    if handler.name = [] then processModify request handlers response
    else
      let call : Call := { name := handler.name, operation := .modify, request := request }
      let modified := handler.modifier.modify request
      if modified.header.status = .ok then (some modified, [call])
      else
        let (response, calls) := processModify request handlers (some modified)
        (response, call :: calls)

/-- `preview_continue`: the request with the rest of its data, and the result -/
def previewContinue (response : Response) (request : Request) : SockM (Request × Bool) := do
  if request.payload.ieof then return (request, false)
  else
    let sent ← sendResponse response
    if sent then readReqContinueData request else return (request, false)

/-- The loop of `process_preview` over the modifiers that follow; `response` is the last one so far. -/
def processPreview (request : Request) : List Handler → Option Response → SockM (Request × Option Response × List Call)
  | [], response => return (request, response, [])
  | handler :: handlers, response => do
    if handler.name = [] then processPreview request handlers response
    else
      let call : Call := { name := handler.name, operation := .preview, request := request }
      let previewed := handler.modifier.preview request
      if previewed.header.status = .noContent ∨ previewed.header.status = .ok then
        return (request, some previewed, [call])
      else if previewed.header.status = .continue then
        let (request, continueStatus) ← previewContinue previewed request
        if continueStatus then return (request, none, [call])
        else return (request, some (← Response.ofStatus .serverError), [call])
      else
        let (request, response, calls) ← processPreview request handlers (some previewed)
        return (request, response, call :: calls)

/-- The part of `process` behind the reading: `process_preview` if there is a preview, `process_modify` if it leaves no response. -/
def processRead (handlers : List Handler) (request : Request) : SockM Outcome := do
  let (request, response, previews) ←
    (if request.previewSize ≥ 0 then processPreview request handlers none else pure (request, none, []) :
      SockM (Request × Option Response × List Call))
  let (response, modifies) := match response with
    | some response => (some response, [])
    | none => processModify request handlers none
  let response ← (match response with
    | some response => pure response
    | none => Response.ofStatus .serverError : SockM Response)
  return { reqHeader := request.header, response := response, calls := previews ++ modifies }

/-- `RequestHandler::process` -/
def process (handlers : List Handler) (reqHeader : RequestHeader) : SockM Outcome := do
  let (request, read) ← readReqData (Request.new reqHeader)
  if read then processRead handlers request
  else return { reqHeader := request.header, response := ← Response.ofStatus .serverError, calls := [] }

/-- `OptionsRequestHandler::process` -/
def processOptions (methods : List Bytes) (reqHeader : RequestHeader) : SockM Outcome := do
  let header ← ResponseHeader.new .ok
  let h ← header.toHeader.attach (bytes "Methods") (← vecAt methods 0)
  let h ← h.attach (bytes "Options-TTL") (bytes "3600")
  let h ← h.attach (bytes "Allow") (bytes "204")
  let response ← Response.new (some { header with toHeader := h })
  return { reqHeader := reqHeader, response := response, calls := [] }

/-- An object of the class `RequestHandler`, or of the class `OptionsRequestHandler` with its registered methods. -/
inductive RequestHandler where
  | modifiers (handlers : List Handler)
  | options (methods : List Bytes)

namespace RequestHandler

/-- The virtual method `process`. -/
def process : RequestHandler → RequestHeader → SockM Outcome
  | modifiers handlers => BitzServer.process handlers
  | options methods => processOptions methods

/-- `register_handler`, given the method of the handler -/
def registerHandler (method : Bytes) : RequestHandler → RequestHandler
  | modifiers handlers => modifiers handlers
  | options methods => options (methods ++ [method])

end RequestHandler

/-! ## Processing returns on every stream -/

/-- After `ieof` the `100 Continue` is illegal: nothing is sent and nothing is read. -/
theorem previewContinue_ieof {request : Request} (hieof : request.payload.ieof = true) (response : Response) (s : Conn) :
    (previewContinue response request).run s = .ok ((request, false), s) := by
  rw [previewContinue, if_pos hieof]
  rfl

theorem previewContinue_within (response : Response) (request : Request) :
    Within Conn.Shrinks (previewContinue response request) := by
  unfold previewContinue
  split
  · exact Within.pure _
  · refine Within.bind (Within.mono (sendResponse_within response) Conn.KeepsInput.shrinks) fun sent => ?_
    split
    · exact Returns.mono (readReqContinueData_returns request) (fun _ _ h => h) fun _ _ => trivial
    · exact Within.pure _

theorem ofStatus_within (status : Status) : Within Conn.Shrinks (Response.ofStatus status) :=
  Returns.mono (Response.ofStatus_returns status) Conn.KeepsInput.shrinks fun _ _ => trivial

theorem processPreview_within (request : Request) : ∀ (handlers : List Handler) (response : Option Response),
    Within Conn.Shrinks (processPreview request handlers response)
  | [], _ => Within.pure _
  | handler :: handlers, response => by
    unfold processPreview
    split
    · exact processPreview_within request handlers response
    · dsimp only
      split
      · exact Within.pure _
      · split
        · refine Within.bind (previewContinue_within _ request) fun r => ?_
          split
          · exact Within.pure _
          · exact Within.bind (ofStatus_within _) fun _ => Within.pure _
        · exact Within.bind (processPreview_within request handlers _) fun _ => Within.pure _

theorem processRead_within (handlers : List Handler) (request : Request) : Within Conn.Shrinks (processRead handlers request) := by
  refine Within.bind (R := Conn.Shrinks) ?_ fun r => ?_
  · split
    · exact processPreview_within request handlers none
    · exact Within.pure _
  · refine Within.bind (R := Conn.Shrinks) ?_ fun _ => Within.pure _
    split
    · exact Within.pure _
    · exact ofStatus_within _

/-- `process` returns on every stream. -/
theorem process_within (handlers : List Handler) (reqHeader : RequestHeader) : Within Conn.Shrinks (process handlers reqHeader) := by
  refine Returns.bind (readReqData_returns _) ?_
  rintro ⟨request, read⟩ hread
  obtain rfl : read = true := hread
  exact processRead_within handlers request

/-- Without a preview nothing more is read. -/
theorem processRead_noPreview (handlers : List Handler) {request : Request} (h : request.previewSize < 0) :
    Returns Conn.KeepsInput (fun o => o.reqHeader = request.header) (processRead handlers request) := by
  unfold processRead
  rw [if_neg (by omega)]
  refine Returns.bind (Q := fun r => r = (request, none, [])) (Returns.pure rfl) ?_
  rintro _ rfl
  refine Returns.bind (Q := fun _ => True) ?_ fun _ _ => Returns.pure rfl
  split
  · exact Within.pure _
  · exact Returns.mono (Response.ofStatus_returns _) (fun _ _ h => h) fun _ _ => trivial

/-- `OptionsRequestHandler::process` reads nothing, and returns if a handler is registered. -/
theorem processOptions_returns {methods : List Bytes} (hne : methods ≠ []) (reqHeader : RequestHeader) :
    Returns Conn.KeepsInput (fun o => o.reqHeader = reqHeader) (processOptions methods reqHeader) := by
  obtain ⟨method, rest, rfl⟩ := List.exists_cons_of_ne_nil hne
  unfold processOptions
  refine Returns.bind (ResponseHeader.new_returns .ok) fun header _ => ?_
  refine Returns.bind (Returns.lift (Q := fun m => m = method) rfl rfl) fun m _ => ?_
  refine Returns.bind (ResponseAux.attach_returns (by decide) _ _) fun _ _ => ?_
  refine Returns.bind (ResponseAux.attach_returns (by decide) _ _) fun _ _ => ?_
  refine Returns.bind (ResponseAux.attach_returns (by decide) _ _) fun _ _ => ?_
  exact Returns.bind (Q := fun _ => True) (Within.pure _) fun _ _ => Returns.pure rfl

end BitzServer
