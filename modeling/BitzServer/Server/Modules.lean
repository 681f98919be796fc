import BitzServer.Server.RequestHandler
import BitzServer.Server.Config

/-!
# Modules of a request handler

`RequestHandler` loads the modules configured for its method with `dlopen`, asks their functions `create` and `destroy` for modifiers, and
closes the modules when it is destroyed. `BitzServer.process` takes the modifiers for granted; here they are what the dynamic linker gives.
Addresses are numbers, 0 is `NULL`.
-/

namespace BitzServer

open Feed

/-- `Modifier::symbols_t` -/
structure Symbols where
  modifier : Nat
  create : Nat
  destroy : Nat

/-- `handler_t`: the name is empty if the module could not be loaded -/
structure LoadedHandler where
  name : Bytes
  symbols : Symbols

/-- A call of the dynamic linker or of a function of a module. -/
inductive ModuleEvent where
  /-- `dlopen( file )` returns the handle -/
  | dlopen (file : Bytes) (handle : Nat)
  /-- `dlsym( handle, name )` returns the address, none if `dlerror()` reports an error -/
  | dlsym (handle : Nat) (name : Bytes) (address : Option Nat)
  /-- the function at the address `create` returns a new modifier -/
  | create (create : Nat) (modifier : Nat)
  /-- the function at the address `destroy` is given the modifier -/
  | destroy (destroy : Nat) (modifier : Nat)
  /-- `dlclose( handle )` -/
  | dlclose (handle : Nat)
  deriving DecidableEq

/-- The process of a handler: the client stream, what the dynamic linker and the memory answer next, and the calls so far. -/
structure Host where
  conn : Conn
  /-- what the next calls of `dlopen` return -/
  handles : Nat → Nat
  /-- what the next calls of `dlsym` return -/
  addresses : Nat → Option Nat
  /-- where the next modifiers are created -/
  modifiers : Nat → Nat
  /-- what the symbols of the next new `handler_t` hold -/
  memory : Nat → Symbols
  events : List ModuleEvent

/-- A program of the handler. -/
abbrev HostM := StateT Host (Except Fault)

/-- A program on the client stream. -/
def onConn {α : Type} (p : SockM α) : HostM α := fun host => do
  let (a, conn) ← p.run host.conn
  return (a, { host with conn })

/-- A call is noted. -/
def Host.log (host : Host) (event : ModuleEvent) : Host := { host with events := host.events ++ [event] }

def dlopen (file : Bytes) : HostM Nat := fun host =>
  .ok (host.handles 0, { host with handles := fun i => host.handles (i + 1) }.log (.dlopen file (host.handles 0)))

/-- `dlsym` and the `dlerror` behind it -/
def dlsym (handle : Nat) (name : Bytes) : HostM (Option Nat) := fun host =>
  .ok (host.addresses 0, { host with addresses := fun i => host.addresses (i + 1) }.log (.dlsym handle name (host.addresses 0)))

def dlclose (handle : Nat) : HostM Unit := fun host => .ok ((), host.log (.dlclose handle))

/-- `symbols.create()` -/
def Symbols.callCreate (symbols : Symbols) : HostM Nat := fun host =>
  .ok (host.modifiers 0,
    { host with modifiers := fun i => host.modifiers (i + 1) }.log (.create symbols.create (host.modifiers 0)))

/-- `symbols.destroy( modifier )` -/
def Symbols.callDestroy (symbols : Symbols) (modifier : Nat) : HostM Unit := fun host =>
  .ok ((), host.log (.destroy symbols.destroy modifier))

/-- The symbols of a new `handler_t` -/
def newSymbols : HostM Symbols := fun host => .ok (host.memory 0, { host with memory := fun i => host.memory (i + 1) })

/-! ## Loading and unloading -/

/-- `load_modifier`: the symbols after it, and whether it succeeds. -/
def loadModifier (file : Bytes) (symbols : Symbols) : HostM (Symbols × Bool) := do
  let symbols := { symbols with modifier := ← dlopen file }
  if symbols.modifier = 0 then return (symbols, false)
  else
    match ← dlsym symbols.modifier (bytes "create") with
    | none => return ({ symbols with create := 0 }, false)
    | some create =>
      let symbols := { symbols with create := create }
      match ← dlsym symbols.modifier (bytes "destroy") with
      | none => return ({ symbols with destroy := 0 }, false)
      | some destroy => return ({ symbols with destroy := destroy }, true)

/-- `unload_modifier` -/
def unloadModifier (modifier : Nat) : HostM Unit := dlclose modifier

/-- The loop of `load_modules` over the modules of an entry: `n` are left, from `j` on. What lies where no module is allocated is not
known: reading it is a fault. -/
def loadHandlers (modules : ModulesPointer) : Nat → Nat → HostM (List LoadedHandler)
  | 0, _ => return []
  | n + 1, j => do
    match modules.get? j with
    | none => throw .outOfRange
    | some config =>
      let (symbols, loaded) ← loadModifier config.module (← newSymbols)
      let handler : LoadedHandler := { name := if loaded then config.name else [], symbols }
      return handler :: (← loadHandlers modules n (j + 1))

/-- `load_modules` over the entries that follow: the first for the method counts. -/
def loadModules (method : Bytes) : List ReqHandlersConfig → HostM (List LoadedHandler)
  | [] => return []
  | entry :: entries =>
    if entry.name = method then
      if entry.modulesCount > 0 then loadHandlers entry.modules entry.modulesCount 0 else return []
    else loadModules method entries

/-- `cleanup_modules` over the handlers that follow -/
def cleanupModules : List LoadedHandler → HostM Unit
  | [] => return ()
  | handler :: handlers => do
    unloadModifier handler.symbols.modifier
    cleanupModules handlers

/-! ## Processing -/

section Library

-- the modifier that a function `create` makes, by its address
variable (library : Nat → Modifier)

/-- A modifier is created, asked for its response and destroyed. -/
def Symbols.respond (symbols : Symbols) (operation : Modifier → Response) : HostM Response := do
  let modifier ← symbols.callCreate
  let response := operation (library symbols.create)
  symbols.callDestroy modifier
  return response

namespace LoadedHandler

/-- The loop of `process_modify` over the handlers that follow; `response` is the last one so far. -/
def processModify (request : Request) : List LoadedHandler → Option Response → HostM (Option Response)
  | [], response => return response
  | handler :: handlers, response => do
    if handler.name = [] then processModify request handlers response
    else
      let modified ← handler.symbols.respond library (·.modify request)
      if modified.header.status = .ok then return some modified
      else processModify request handlers (some modified)

/-- The loop of `process_preview` over the handlers that follow; `response` is the last one so far. -/
def processPreview (request : Request) : List LoadedHandler → Option Response → HostM (Request × Option Response)
  | [], response => return (request, response)
  | handler :: handlers, response => do
    if handler.name = [] then processPreview request handlers response
    else
      let previewed ← handler.symbols.respond library (·.preview request)
      if previewed.header.status = .noContent ∨ previewed.header.status = .ok then return (request, some previewed)
      else if previewed.header.status = .continue then
        let (request, continueStatus) ← onConn (previewContinue previewed request)
        if continueStatus then return (request, none)
        else return (request, some (← onConn (Response.ofStatus .serverError)))
      else processPreview request handlers (some previewed)

/-- The part of `process` behind the reading -/
def processRead (handlers : List LoadedHandler) (request : Request) : HostM (RequestHeader × Response) := do
  let (request, response) ←
    (if request.previewSize ≥ 0 then processPreview library request handlers none else pure (request, none) :
      HostM (Request × Option Response))
  let response ← (match response with
    | some response => pure (some response)
    | none => processModify library request handlers none : HostM (Option Response))
  let response ← (match response with
    | some response => pure response
    | none => onConn (Response.ofStatus .serverError) : HostM Response)
  return (request.header, response)

/-- `RequestHandler::process` -/
def process (handlers : List LoadedHandler) (reqHeader : RequestHeader) : HostM (RequestHeader × Response) := do
  let (request, read) ← onConn (readReqData (Request.new reqHeader))
  if read then processRead library handlers request
  else return (request.header, ← onConn (Response.ofStatus .serverError))

end LoadedHandler

/-- The requests a handler is given, each with the stream it comes on. -/
def processAll (handlers : List LoadedHandler) : List (Conn × RequestHeader) → HostM Unit
  | [] => return ()
  | (conn, reqHeader) :: requests => do
    modify fun host => { host with conn }
    let _ ← LoadedHandler.process library handlers reqHeader
    processAll handlers requests

/-- A `RequestHandler` from its construction, over the requests it is given, to its destruction. -/
def lifetime (config : HandlersConfig) (method : Bytes) (requests : List (Conn × RequestHeader)) : HostM Unit := do
  let handlers ← loadModules method config.reqHandlers
  processAll library handlers requests
  cleanupModules handlers

end Library

/-! ## Processing with the modifiers -/

section Simulation

variable {library : Nat → Modifier}

/-- The handler as `process` knows it: the modifier its module makes. -/
def LoadedHandler.toHandler (library : Nat → Modifier) (handler : LoadedHandler) : Handler :=
  { name := handler.name, modifier := library handler.symbols.create }

theorem onConn_simulates {α : Type} (p : SockM α) : Simulates Host.conn id (onConn p) p := by
  intro host a conn hrun
  refine ⟨{ host with conn }, ?_, rfl⟩
  rw [StateT.run, onConn, hrun]
  rfl

theorem respond_stutter (symbols : Symbols) (operation : Modifier → Response) (host : Host) : ∃ host',
    (symbols.respond library operation).run host = .ok (operation (library symbols.create), host') ∧ host'.conn = host.conn :=
  ⟨_, rfl, rfl⟩

namespace LoadedHandler

theorem processModify_simulates (request : Request) : ∀ (handlers : List LoadedHandler) (response : Option Response),
    Simulates Host.conn Prod.fst (processModify library request handlers response)
      (pure (BitzServer.processModify request (handlers.map (toHandler library)) response) : SockM _)
  | [], response => Simulates.pure rfl
  | handler :: handlers, response => by
    have hrest := processModify_simulates request handlers
    rw [processModify, List.map_cons, BitzServer.processModify]
    by_cases hname : handler.name = []
    · have hname' : (toHandler library handler).name = [] := hname
      rw [if_pos hname, if_pos hname']
      exact hrest response
    · have hname' : ¬(toHandler library handler).name = [] := hname
      rw [if_neg hname, if_neg hname']
      refine Simulates.stutter (respond_stutter handler.symbols _) ?_
      generalize hmodified : (library handler.symbols.create).modify request = modified
      have hmodified' : (toHandler library handler).modifier.modify request = modified := hmodified
      rw [hmodified']
      dsimp only
      split
      · exact Simulates.pure rfl
      · refine Simulates.pure_congr ?_ (hrest _)
        rfl

theorem processPreview_simulates (request : Request) : ∀ (handlers : List LoadedHandler) (response : Option Response),
    Simulates Host.conn (fun r => (r.1, r.2.1)) (processPreview library request handlers response)
      (BitzServer.processPreview request (handlers.map (toHandler library)) response)
  | [], response => Simulates.pure rfl
  | handler :: handlers, response => by
    have hrest := processPreview_simulates request handlers
    rw [processPreview, List.map_cons]
    unfold BitzServer.processPreview
    by_cases hname : handler.name = []
    · have hname' : (toHandler library handler).name = [] := hname
      rw [if_pos hname, if_pos hname']
      exact hrest response
    · have hname' : ¬(toHandler library handler).name = [] := hname
      rw [if_neg hname, if_neg hname']
      refine Simulates.stutter (respond_stutter handler.symbols _) ?_
      generalize hpreviewed : (library handler.symbols.create).preview request = previewed
      have hpreviewed' : (toHandler library handler).modifier.preview request = previewed := hpreviewed
      rw [hpreviewed']
      dsimp only
      split
      · exact Simulates.pure rfl
      · split
        · refine Simulates.bind (onConn_simulates _) ?_
          rintro ⟨continued, continueStatus⟩
          cases continueStatus with
          | true => exact Simulates.pure rfl
          | false => exact Simulates.bind (onConn_simulates _) fun _ => Simulates.pure rfl
        · exact Simulates.map (h := fun r => (r.1, r.2.1, Call.mk handler.name .preview request :: r.2.2)) (hrest _) fun _ => rfl

/-- Asking for the responses of `process_modify` leaves the client stream alone. -/
theorem processModify_stutter (request : Request) (handlers : List LoadedHandler) (response : Option Response) (host : Host) : ∃ host',
    (processModify library request handlers response).run host =
      .ok ((BitzServer.processModify request (handlers.map (toHandler library)) response).1, host') ∧ host'.conn = host.conn :=
  processModify_simulates request handlers response host _ _ rfl

theorem processRead_simulates (handlers : List LoadedHandler) (request : Request) :
    Simulates Host.conn (fun o => (o.reqHeader, o.response)) (processRead library handlers request)
      (BitzServer.processRead (handlers.map (toHandler library)) request) := by
  unfold processRead BitzServer.processRead
  refine Simulates.bind (f := fun r => (r.1, r.2.1)) ?_ ?_
  · split
    · exact processPreview_simulates request handlers none
    · exact Simulates.pure rfl
  · rintro ⟨request', response, previews⟩
    have hfinal : ∀ (response : Option Response) (modifies : List Call), Simulates Host.conn (fun o => (o.reqHeader, o.response))
        (do
          let response ← (match response with
            | some response => pure response
            | none => onConn (Response.ofStatus .serverError) : HostM Response)
          return (request'.header, response))
        (do
          let response ← (match response with
            | some response => pure response
            | none => Response.ofStatus .serverError : SockM Response)
          return ({ reqHeader := request'.header, response := response, calls := previews ++ modifies } : Outcome)) := by
      intro response modifies
      refine Simulates.bind (f := id) ?_ fun _ => Simulates.pure rfl
      cases response with
      | some response => exact Simulates.pure rfl
      | none => exact onConn_simulates _
    cases response with
    | some response => exact Simulates.stutter (fun host => ⟨host, rfl, rfl⟩) (hfinal (some response) [])
    | none => exact Simulates.stutter (processModify_stutter request' handlers none) (hfinal _ _)

/-- `process` with the modules that were loaded is `process` with the modifiers these modules make. -/
theorem process_simulates (handlers : List LoadedHandler) (reqHeader : RequestHeader) :
    Simulates Host.conn (fun o => (o.reqHeader, o.response)) (process library handlers reqHeader)
      (BitzServer.process (handlers.map (toHandler library)) reqHeader) := by
  unfold process BitzServer.process
  refine Simulates.bind (onConn_simulates _) ?_
  rintro ⟨request, read⟩
  cases read with
  | false => exact Simulates.bind (onConn_simulates _) fun _ => Simulates.pure rfl
  | true => exact processRead_simulates handlers request

end LoadedHandler

end Simulation

end BitzServer
