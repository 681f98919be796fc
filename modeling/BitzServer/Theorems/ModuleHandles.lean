import BitzServer.Server.ModuleEvents
import BitzServer.Server.Echo

/-!
# The handles of the modules

`cleanup_modules` closes the handle of every handler. `process_preview` and `process_modify` pass over a handler whose module could not be
loaded, `cleanup_modules` does not: a module that `dlopen` could not open is closed as well, with the handle `NULL`.
-/

namespace BitzServer

open Feed Pairs

/-- The events of a handler from its construction to its destruction. -/
def moduleEvents (library : Nat → Modifier) (config : HandlersConfig) (method : Bytes) (requests : List (Conn × RequestHeader))
    (host : Host) : Except Fault (List ModuleEvent) := do
  let (_, host) ← (lifetime library config method requests).run { host with events := [] }
  return host.events

/-- Each handle that was opened is closed once and nothing else is closed; modifiers are created and destroyed in pairs, by modules all
of whose symbols were found. -/
structure HandledOnce (events : List ModuleEvent) : Prop where
  handles : (closed events).Perm (opened events)
  calls : Paired (CallPair (Resolved events)) (calls events)

namespace ModuleAux

/-- What is closed is what `dlopen` returned for each module, `NULL` or not; what was opened is the handles among it. The calls of
modifiers are always in pairs. -/
theorem moduleEvents_run (library : Nat → Modifier) {config : HandlersConfig} {method : Bytes}
    (h : ∀ entry, config.reqHandlers.find? (fun entry => entry.name = method) = some entry → entry.Initialised)
    (requests : List (Conn × RequestHeader)) (host : Host) : ∃ events, moduleEvents library config method requests host = .ok events ∧
      closed events = (List.range (configuredModules method config.reqHandlers)).map host.handles ∧
      opened events = ((List.range (configuredModules method config.reqHandlers)).map host.handles).filter (· ≠ 0) ∧
      Paired (CallPair (Resolved events)) (calls events) := by
  obtain ⟨handlers, host₁, loads, hload, hevents₁, htrace⟩ := loadModules_run method h { host with events := [] }
  have hall : Within (Host.Calls (Resolved loads)) (processAll library handlers requests) :=
    processAll_within htrace.resolved requests
  obtain ⟨_, host₂, hprocess, ⟨new, hevents₂, hpaired⟩, -⟩ := hall host₁
  obtain ⟨host₃, hcleanup, hevents₃⟩ := cleanupModules_run handlers host₂
  obtain ⟨hopen, hclose, hcalls⟩ := calls_of_paired hpaired
  refine ⟨loads ++ new ++ handlers.map (fun handler => .dlclose handler.symbols.modifier), ?_, ?_, ?_, ?_⟩
  · have hrun : (lifetime library config method requests).run { host with events := [] } = .ok ((), host₃) := by
      rw [lifetime, run_bind_of_ok hload, run_bind_of_ok hprocess, hcleanup]
    rw [moduleEvents, hrun]
    rw [hevents₂, hevents₁] at hevents₃
    exact congrArg Except.ok hevents₃
  · rw [closed_append, closed_append, htrace.closed, hclose, closed_dlclose, htrace.modifiers]
    rfl
  · rw [opened_append, opened_append, htrace.opened, hopen, opened_dlclose, List.append_nil, List.append_nil]
  · rw [calls_append, calls_append, htrace.calls, hcalls, calls_dlclose, List.append_nil, List.nil_append]
    refine hpaired.mono ?_
    rintro first second ⟨symbols, modifier, hresolved, hfirst, hsecond⟩
    exact ⟨symbols, modifier, hresolved.append_right.append_right, hfirst, hsecond⟩

/-- A list is a permutation of what a filter leaves of it exactly if the filter leaves all. -/
theorem perm_filter_iff {α : Type} (p : α → Bool) (l : List α) : l.Perm (l.filter p) ↔ ∀ a ∈ l, p a = true := by
  constructor
  · intro h
    exact List.length_filter_eq_length_iff.mp h.length_eq.symm
  · intro h
    rw [List.filter_eq_self.mpr h]

end ModuleAux

open ModuleAux

/-- Over the life of a handler, whatever requests it is given, the handles that are closed are those that were opened exactly if
`dlopen` succeeds for every module configured for its method. Whether the symbols are found does not matter. -/
theorem handledOnce_iff (library : Nat → Modifier) (config : HandlersConfig) (method : Bytes)
    (requests : List (Conn × RequestHeader)) (host : Host)
    (h : ∀ entry, config.reqHandlers.find? (fun entry => entry.name = method) = some entry → entry.Initialised) :
    ∃ events, moduleEvents library config method requests host = .ok events ∧
      (HandledOnce events ↔ ∀ j < configuredModules method config.reqHandlers, host.handles j ≠ 0) := by
  obtain ⟨events, hrun, hclosed, hopened, hcalls⟩ := moduleEvents_run library h requests host
  refine ⟨events, hrun, ?_⟩
  have hall : (closed events).Perm (opened events) ↔
      ∀ j < configuredModules method config.reqHandlers, host.handles j ≠ 0 := by
    rw [hclosed, hopened, perm_filter_iff]
    simp
  exact ⟨fun hhandled => hall.mp hhandled.handles, fun hopen => ⟨hall.mpr hopen, hcalls⟩⟩

namespace ModuleAux

/-- A configuration with one module for `REQMOD`. -/
def oneModule : HandlersConfig where
  reqHandlersCount := 1
  reqHandlers := [{
    name := bytes "REQMOD"
    className := bytes "ReqmodRequestHandler"
    modulesCount := 1
    modules := .array [{ name := bytes "modpy", module := bytes "mod_py.so" }] }]

/-- A process in which `dlopen` returns the handle each time and `dlsym` finds every symbol. -/
def hostOf (handle : Nat) : Host where
  conn := Conn.ofInput []
  handles _ := handle
  addresses _ := some 1
  modifiers _ := 1
  memory _ := { modifier := 1, create := 1, destroy := 1 }
  events := []

theorem oneModule_initialised : ∀ entry, oneModule.reqHandlers.find? (fun entry => entry.name = bytes "REQMOD") = some entry →
    entry.Initialised := by
  rintro _ ⟨⟩
  rfl

/-- A request without sections. -/
def bareRequest : RequestHeader :=
  { Header.new with
    request := { method := bytes "REQMOD", uri := bytes "icap://localhost/echo", protocol := bytes "ICAP/1.0" }
    rawData := [] }

end ModuleAux

/-- A module that is opened, asked for a response and closed. -/
theorem handledOnce_oneModule : ∃ (echo : Echo) (events : List ModuleEvent),
    moduleEvents (fun _ => echo.modifier) oneModule (bytes "REQMOD") [(Conn.ofInput [], bareRequest)] (hostOf 1) = .ok events ∧
      HandledOnce events := by
  obtain ⟨echo⟩ := Echo.exists_echo
  obtain ⟨events, hrun, hiff⟩ := handledOnce_iff (fun _ => echo.modifier) oneModule (bytes "REQMOD")
    [(Conn.ofInput [], bareRequest)] (hostOf 1) oneModule_initialised
  exact ⟨echo, events, hrun, hiff.mpr fun _ _ => Nat.one_ne_zero⟩

/-- A module that cannot be opened is closed: `dlclose` is given `NULL`. -/
theorem handledOnce_false : ¬∀ (library : Nat → Modifier) (config : HandlersConfig) (method : Bytes)
    (requests : List (Conn × RequestHeader)) (host : Host),
    (∀ entry, config.reqHandlers.find? (fun entry => entry.name = method) = some entry → entry.Initialised) →
    ∃ events, moduleEvents library config method requests host = .ok events ∧ HandledOnce events := by
  intro h
  obtain ⟨echo⟩ := Echo.exists_echo
  obtain ⟨events, hrun, hhandled⟩ :=
    h (fun _ => echo.modifier) oneModule (bytes "REQMOD") [] (hostOf 0) oneModule_initialised
  have hevents : moduleEvents (fun _ => echo.modifier) oneModule (bytes "REQMOD") [] (hostOf 0) =
      .ok [.dlopen (bytes "mod_py.so") 0, .dlclose 0] := rfl
  obtain rfl := Except.ok.inj (hevents.symm.trans hrun)
  exact absurd hhandled.handles.length_eq (by decide)

end BitzServer
