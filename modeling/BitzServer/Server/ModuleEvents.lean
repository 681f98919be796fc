import BitzServer.Server.Modules
import BitzServer.Lib.Pairs

/-!
# What the events of a handler tell

The calls a handler makes of the dynamic linker and of its modules are a list of events. Each operation of the handler has a lemma for
what it adds to the list: loading opens modules, processing creates and destroys modifiers, cleaning up closes handles.
-/

namespace BitzServer

open Feed Pairs

/-! ## What the calls tell -/

namespace ModuleEvent

/-- The handle that `dlopen` returned, none for `NULL`. -/
def opened? : ModuleEvent → Option Nat
  | dlopen _ handle => if handle = 0 then none else some handle
  | _ => none

/-- The handle that `dlclose` is given. -/
def closed? : ModuleEvent → Option Nat
  | dlclose handle => some handle
  | _ => none

/-- The event is a call of `create` or `destroy`. -/
def isCall : ModuleEvent → Bool
  | create _ _ => true
  | destroy _ _ => true
  | _ => false

end ModuleEvent

/-- The handles that `dlopen` returned successfully. -/
def opened (events : List ModuleEvent) : List Nat := events.filterMap ModuleEvent.opened?

/-- The handles that were closed. -/
def closed (events : List ModuleEvent) : List Nat := events.filterMap ModuleEvent.closed?

/-- The calls of `create` and `destroy`. -/
def calls (events : List ModuleEvent) : List ModuleEvent := events.filter ModuleEvent.isCall

/-- The events of a module all of whose symbols are found. -/
def resolution (file : Bytes) (symbols : Symbols) : List ModuleEvent :=
  [.dlopen file symbols.modifier, .dlsym symbols.modifier (bytes "create") (some symbols.create),
    .dlsym symbols.modifier (bytes "destroy") (some symbols.destroy)]

/-- The symbols are those of a module that was opened and all of whose symbols were found. -/
def Resolved (events : List ModuleEvent) (symbols : Symbols) : Prop :=
  symbols.modifier ≠ 0 ∧ ∃ file, resolution file symbols <:+: events

/-- A modifier is created by one module and destroyed by the same. -/
def CallPair (R : Symbols → Prop) (first second : ModuleEvent) : Prop :=
  ∃ symbols modifier, R symbols ∧ first = .create symbols.create modifier ∧ second = .destroy symbols.destroy modifier

/-- What is opened by one trace and then another. -/
@[simp]
theorem opened_append (u v : List ModuleEvent) : opened (u ++ v) = opened u ++ opened v := List.filterMap_append

/-- What is closed by one trace and then another. -/
@[simp]
theorem closed_append (u v : List ModuleEvent) : closed (u ++ v) = closed u ++ closed v := List.filterMap_append

/-- The calls of one trace and then another. -/
@[simp]
theorem calls_append (u v : List ModuleEvent) : calls (u ++ v) = calls u ++ calls v := List.filter_append ..

/-- Symbols that are resolved stay resolved. -/
theorem Resolved.append_right {u v : List ModuleEvent} {symbols : Symbols} (h : Resolved u symbols) : Resolved (u ++ v) symbols :=
  ⟨h.1, h.2.imp fun _ hfile => hfile.trans (List.prefix_append u v).isInfix⟩

/-- Symbols may have been resolved after other events. -/
theorem Resolved.append_left {u v : List ModuleEvent} {symbols : Symbols} (h : Resolved v symbols) : Resolved (u ++ v) symbols :=
  ⟨h.1, h.2.imp fun _ hfile => hfile.trans (List.suffix_append u v).isInfix⟩

/-- Pairs of calls open and close nothing. -/
theorem calls_of_paired {R : Symbols → Prop} {new : List ModuleEvent} (h : Paired (CallPair R) new) :
    opened new = [] ∧ closed new = [] ∧ calls new = new := by
  have hall : ∀ event ∈ new, event.opened? = none ∧ event.closed? = none ∧ event.isCall = true := by
    refine h.forall_mem ?_
    rintro _ _ ⟨symbols, modifier, -, rfl, rfl⟩
    exact ⟨⟨rfl, rfl, rfl⟩, ⟨rfl, rfl, rfl⟩⟩
  exact ⟨List.filterMap_eq_nil_iff.mpr (fun e he => (hall e he).1), List.filterMap_eq_nil_iff.mpr (fun e he => (hall e he).2.1),
    List.filter_eq_self.mpr (fun e he => (hall e he).2.2)⟩

/-! ## What loading adds -/

/-- What the loading of handlers adds to the events, given what `dlopen` returned for each: the handle of every handler is what
`dlopen` returned, `NULL` or not, nothing is closed and no modifier is made, and a handler has a name only if its module was resolved. -/
structure LoadTrace (handles : List Nat) (handlers : List LoadedHandler) (new : List ModuleEvent) : Prop where
  modifiers : handlers.map (·.symbols.modifier) = handles
  opened : opened new = handles.filter (· ≠ 0)
  closed : closed new = []
  calls : calls new = []
  resolved : ∀ handler ∈ handlers, handler.name ≠ [] → Resolved new handler.symbols

/-- No module is loaded by no event. -/
theorem LoadTrace.nil : LoadTrace [] [] [] := ⟨rfl, rfl, rfl, rfl, nofun⟩

/-- The modules of one trace and then of another are loaded. -/
theorem LoadTrace.append {handles handles' : List Nat} {handlers handlers' : List LoadedHandler} {new new' : List ModuleEvent}
    (h : LoadTrace handles handlers new) (h' : LoadTrace handles' handlers' new') :
    LoadTrace (handles ++ handles') (handlers ++ handlers') (new ++ new') where
  modifiers := by rw [List.map_append, h.modifiers, h'.modifiers]
  opened := by rw [opened_append, h.opened, h'.opened, List.filter_append]
  closed := by rw [closed_append, h.closed, h'.closed, List.append_nil]
  calls := by rw [calls_append, h.calls, h'.calls, List.append_nil]
  resolved := by
    intro handler hmem hname
    rcases List.mem_append.mp hmem with hmem | hmem
    · exact (h.resolved handler hmem hname).append_right
    · exact (h'.resolved handler hmem hname).append_left

/-- `dlopen` takes the next handle of the host. -/
theorem dlopen_run (file : Bytes) (host : Host) : (dlopen file).run host = .ok (host.handles 0,
    { host with handles := fun i => host.handles (i + 1), events := host.events ++ [.dlopen file (host.handles 0)] }) := rfl

/-- `dlsym` takes the next address of the host. -/
theorem dlsym_run (handle : Nat) (name : Bytes) (host : Host) : (dlsym handle name).run host = .ok (host.addresses 0,
    { host with
      addresses := fun i => host.addresses (i + 1)
      events := host.events ++ [.dlsym handle name (host.addresses 0)] }) := rfl

/-- `load_modifier` stores what `dlopen` returns, `NULL` as well; it succeeds only with all symbols found. -/
theorem loadModifier_run (file : Bytes) (symbols : Symbols) (host : Host) : ∃ symbols' loaded host' new,
    (loadModifier file symbols).run host = .ok ((symbols', loaded), host') ∧ host'.events = host.events ++ new ∧
      host'.handles = (fun i => host.handles (i + 1)) ∧
      ∀ name, LoadTrace [host.handles 0] [{ name := if loaded then name else [], symbols := symbols' }] new := by
  rw [loadModifier, run_bind_of_ok (dlopen_run ..)]
  by_cases hnull : host.handles 0 = 0
  · rw [if_pos hnull]
    refine ⟨_, false, _, [.dlopen file (host.handles 0)], rfl, rfl, rfl, fun name => ⟨rfl, ?_, rfl, rfl, by simp⟩⟩
    simp [opened, ModuleEvent.opened?, hnull]
  · rw [if_neg hnull, run_bind_of_ok (dlsym_run ..)]
    cases hcreate : host.addresses 0 with
    | none =>
      refine ⟨_, false, _, [.dlopen file (host.handles 0), .dlsym (host.handles 0) (bytes "create") none], rfl,
        by rw [List.append_assoc]; rfl, rfl, fun name => ⟨rfl, ?_, rfl, rfl, by simp⟩⟩
      simp [opened, ModuleEvent.opened?, hnull]
    | some create =>
      dsimp only
      rw [run_bind_of_ok (dlsym_run ..)]
      cases hdestroy : host.addresses 1 with
      | none =>
        refine ⟨_, false, _, [.dlopen file (host.handles 0), .dlsym (host.handles 0) (bytes "create") (some create),
          .dlsym (host.handles 0) (bytes "destroy") none], rfl, by simp, rfl, fun name => ⟨rfl, ?_, rfl, rfl, by simp⟩⟩
        simp [opened, ModuleEvent.opened?, hnull]
      | some destroy =>
        refine ⟨{ modifier := host.handles 0, create := create, destroy := destroy }, true, _,
          resolution file { modifier := host.handles 0, create := create, destroy := destroy }, rfl, by simp [resolution], rfl,
          fun name => ⟨rfl, ?_, rfl, rfl, ?_⟩⟩
        · simp [opened, ModuleEvent.opened?, resolution, hnull]
        · intro handler hmem _
          rw [List.mem_singleton.mp hmem]
          exact ⟨hnull, file, List.infix_refl _⟩

/-- The loop over the modules of an entry loads each once, in order, if they are allocated. -/
theorem loadHandlers_run (modules : ModulesPointer) : ∀ (n j : Nat) (host : Host),
    (∀ i < n, ∃ config, modules.get? (j + i) = some config) → ∃ handlers host' new,
      (loadHandlers modules n j).run host = .ok (handlers, host') ∧ host'.events = host.events ++ new ∧
        LoadTrace ((List.range n).map host.handles) handlers new := by
  intro n
  induction n with
  | zero => exact fun j host _ => ⟨[], host, [], rfl, by rw [List.append_nil], LoadTrace.nil⟩
  | succ n ih =>
    intro j host h
    obtain ⟨config, hconfig⟩ := h 0 (Nat.succ_pos n)
    rw [Nat.add_zero] at hconfig
    have hnew : newSymbols.run host = .ok (host.memory 0, { host with memory := fun i => host.memory (i + 1) }) := rfl
    obtain ⟨symbols, loaded, host₁, new₁, hload, hevents, hhandles, htrace⟩ :=
      loadModifier_run config.module (host.memory 0) { host with memory := fun i => host.memory (i + 1) }
    obtain ⟨handlers, host₂, new₂, hrest, hevents', htrace'⟩ := ih (j + 1) host₁ (by
      intro i hi
      rw [Nat.add_right_comm, Nat.add_assoc]
      exact h (i + 1) (Nat.succ_lt_succ hi))
    refine ⟨{ name := if loaded then config.name else [], symbols } :: handlers, host₂, new₁ ++ new₂, ?_,
      by rw [hevents', hevents, List.append_assoc], ?_⟩
    · rw [loadHandlers, hconfig]
      dsimp only
      rw [run_bind_of_ok hnew, run_bind_of_ok hload, run_bind_of_ok hrest]
      rfl
    · rw [hhandles] at htrace'
      rw [List.range_succ_eq_map, List.map_cons, List.map_map]
      exact (htrace config.name).append htrace'

/-- The number of modules configured for a method: `modules_count` of the first entry for it. -/
def configuredModules (method : Bytes) (entries : List ReqHandlersConfig) : Nat :=
  match entries.find? (fun entry => entry.name = method) with
  | some entry => entry.modulesCount
  | none => 0

/-- `load_modules` loads each module configured for the method once, in order, if the entry for it is initialised. -/
theorem loadModules_run (method : Bytes) {entries : List ReqHandlersConfig}
    (h : ∀ entry, entries.find? (fun entry => entry.name = method) = some entry → entry.Initialised) (host : Host) :
    ∃ handlers host' new, (loadModules method entries).run host = .ok (handlers, host') ∧ host'.events = host.events ++ new ∧
      LoadTrace ((List.range (configuredModules method entries)).map host.handles) handlers new := by
  induction entries with
  | nil => exact ⟨[], host, [], rfl, by rw [List.append_nil], LoadTrace.nil⟩
  | cons entry entries ih =>
    rw [loadModules, configuredModules]
    by_cases hname : entry.name = method
    · rw [List.find?_cons_of_pos (by simpa using hname)] at h ⊢
      rw [if_pos hname]
      by_cases hcount : entry.modulesCount > 0
      · rw [if_pos hcount]
        refine loadHandlers_run entry.modules entry.modulesCount 0 host fun i hi => ?_
        rw [Nat.zero_add]
        exact (h entry rfl).get? hi
      · obtain hzero : entry.modulesCount = 0 := by omega
        rw [if_neg hcount]
        simp only [hzero]
        exact ⟨[], host, [], rfl, by rw [List.append_nil], LoadTrace.nil⟩
    · rw [List.find?_cons_of_neg (by simpa using hname)] at h ⊢
      rw [if_neg hname]
      exact ih h

/-- `cleanup_modules` closes the handle of every handler. -/
theorem cleanupModules_run : ∀ (handlers : List LoadedHandler) (host : Host), ∃ host',
    (cleanupModules handlers).run host = .ok ((), host') ∧
      host'.events = host.events ++ handlers.map (fun handler => .dlclose handler.symbols.modifier)
  | [], host => ⟨host, rfl, by rw [List.map_nil, List.append_nil]⟩
  | handler :: handlers, host => by
    have hclose : (unloadModifier handler.symbols.modifier).run host =
        .ok ((), host.log (.dlclose handler.symbols.modifier)) := rfl
    obtain ⟨host', hrest, hevents⟩ := cleanupModules_run handlers (host.log (.dlclose handler.symbols.modifier))
    refine ⟨host', by rw [cleanupModules, run_bind_of_ok hclose, hrest], ?_⟩
    rw [hevents, Host.log, List.append_assoc, List.map_cons]
    rfl

/-- The closing of handles opens nothing and makes no modifier. -/
theorem opened_dlclose (handlers : List LoadedHandler) :
    opened (handlers.map (fun handler => .dlclose handler.symbols.modifier)) = [] := by
  rw [opened, List.filterMap_map]
  exact List.filterMap_eq_nil_iff.mpr fun _ _ => rfl

/-- Every loaded module is closed once. -/
theorem closed_dlclose (handlers : List LoadedHandler) :
    closed (handlers.map (fun handler => .dlclose handler.symbols.modifier)) = handlers.map (·.symbols.modifier) := by
  rw [closed, List.filterMap_map]
  exact congrFun List.filterMap_eq_map handlers

/-- Closing the modules calls none of them. -/
theorem calls_dlclose (handlers : List LoadedHandler) :
    calls (handlers.map (fun handler => .dlclose handler.symbols.modifier)) = [] := by
  rw [calls, List.filter_map]
  simp [ModuleEvent.isCall, Function.comp_def]

/-! ## What processing adds -/

/-- Only pairs of calls of `create` and `destroy` are added, of modules with `R`. -/
def Host.Calls (R : Symbols → Prop) (host host' : Host) : Prop :=
  ∃ new, host'.events = host.events ++ new ∧ Paired (CallPair R) new

/-- No call is made by doing nothing. -/
instance (R : Symbols → Prop) : Std.Refl (Host.Calls R) := ⟨fun _ => ⟨[], by rw [List.append_nil], Paired.nil⟩⟩

/-- Calls follow each other. -/
instance (R : Symbols → Prop) : IsTrans Host (Host.Calls R) := by
  refine ⟨fun host₁ host₂ host₃ h h' => ?_⟩
  obtain ⟨new, hevents, hpaired⟩ := h
  obtain ⟨new', hevents', hpaired'⟩ := h'
  exact ⟨new ++ new', by rw [hevents', hevents, List.append_assoc], hpaired.append hpaired'⟩

section Processing

variable {R : Symbols → Prop} {library : Nat → Modifier}

/-- What happens on the client stream calls no module. -/
theorem onConn_returns {α : Type} {S : Conn → Conn → Prop} {Q : α → Prop} {p : SockM α} (hp : Returns S Q p) :
    Returns (Host.Calls R) Q (onConn p) := by
  intro host
  obtain ⟨a, conn, hrun, -, hQ⟩ := hp host.conn
  refine ⟨a, { host with conn }, ?_, ⟨[], by rw [List.append_nil], Paired.nil⟩, hQ⟩
  rw [StateT.run, onConn, hrun]
  rfl

/-- A modifier is called through its own symbols. -/
theorem respond_within {symbols : Symbols} (h : R symbols) (operation : Modifier → Response) :
    Within (Host.Calls R) (symbols.respond library operation) :=
  fun host => ⟨operation (library symbols.create), _, rfl,
    ⟨[.create symbols.create (host.modifiers 0), .destroy symbols.destroy (host.modifiers 0)], by simp [Host.log],
      Paired.pair ⟨symbols, host.modifiers 0, h, rfl, rfl⟩ Paired.nil⟩, trivial⟩

namespace LoadedHandler

/-- `process_modify` calls the modifiers of its modules only. -/
theorem processModify_within (request : Request) : ∀ {handlers : List LoadedHandler},
    (∀ handler ∈ handlers, handler.name ≠ [] → R handler.symbols) → ∀ response,
      Within (Host.Calls R) (processModify library request handlers response)
  | [], _, _ => Within.pure _
  | handler :: handlers, h, response => by
    have hrest := processModify_within request (fun other hmem => h other (List.mem_cons_of_mem _ hmem))
    unfold processModify
    by_cases hname : handler.name = []
    · rw [if_pos hname]
      exact hrest response
    · rw [if_neg hname]
      refine Within.bind (respond_within (h handler List.mem_cons_self hname) _) fun modified => ?_
      split
      · exact Within.pure _
      · exact hrest _

/-- `process_preview` calls the modifiers of its modules only. -/
theorem processPreview_within (request : Request) : ∀ {handlers : List LoadedHandler},
    (∀ handler ∈ handlers, handler.name ≠ [] → R handler.symbols) → ∀ response,
      Within (Host.Calls R) (processPreview library request handlers response)
  | [], _, _ => Within.pure _
  | handler :: handlers, h, response => by
    have hrest := processPreview_within request (fun other hmem => h other (List.mem_cons_of_mem _ hmem))
    unfold processPreview
    by_cases hname : handler.name = []
    · rw [if_pos hname]
      exact hrest response
    · rw [if_neg hname]
      refine Within.bind (respond_within (h handler List.mem_cons_self hname) _) fun previewed => ?_
      split
      · exact Within.pure _
      · split
        · refine Within.bind (onConn_returns (previewContinue_within previewed request)) ?_
          rintro ⟨continued, continueStatus⟩
          cases continueStatus with
          | true => exact Within.pure _
          | false => exact Within.bind (onConn_returns (ofStatus_within _)) fun _ => Within.pure _
        · exact hrest _

/-- A request that has been read is given to the modules of its handler only. -/
theorem processRead_within {handlers : List LoadedHandler} (h : ∀ handler ∈ handlers, handler.name ≠ [] → R handler.symbols)
    (request : Request) : Within (Host.Calls R) (processRead library handlers request) := by
  unfold processRead
  refine Within.bind (R := Host.Calls R) ?_ fun r => Within.bind (R := Host.Calls R) ?_ fun response =>
    Within.bind (R := Host.Calls R) ?_ fun _ => Within.pure _
  · split
    · exact processPreview_within request h none
    · exact Within.pure _
  · split
    · exact Within.pure _
    · exact processModify_within r.1 h none
  · split
    · exact Within.pure _
    · exact onConn_returns (ofStatus_within _)

/-- `process` returns on every stream, and creates and destroys modifiers in pairs, of loaded modules only. -/
theorem process_within {handlers : List LoadedHandler} (h : ∀ handler ∈ handlers, handler.name ≠ [] → R handler.symbols)
    (reqHeader : RequestHeader) : Within (Host.Calls R) (process library handlers reqHeader) := by
  refine Returns.bind (onConn_returns (readReqData_returns _)) ?_
  rintro ⟨request, read⟩ hread
  obtain rfl : read = true := hread
  exact processRead_within h request

end LoadedHandler

/-- Request after request is given to the modules of the handler only. -/
theorem processAll_within {handlers : List LoadedHandler} (h : ∀ handler ∈ handlers, handler.name ≠ [] → R handler.symbols) :
    ∀ requests, Within (Host.Calls R) (processAll library handlers requests)
  | [] => Within.pure _
  | (conn, reqHeader) :: requests => by
    refine Within.bind (fun host => ⟨(), { host with conn }, rfl, ⟨[], by rw [List.append_nil], Paired.nil⟩, trivial⟩) fun _ => ?_
    exact Within.bind (LoadedHandler.process_within h reqHeader) fun _ => processAll_within h requests

end Processing

end BitzServer
