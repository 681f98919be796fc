import BitzServer.Icap.Stream

/-!
# The configuration of the request handlers

`Config::read_req_handler_configs` copies the entries of `req_handlers` of the parsed file into a new array of `req_handlers_config_t`. The
numbers and pointers of a new entry are what the memory held. A setting that is not found raises an exception, which ends the reading;
what was written before stays.
-/

namespace BitzServer

/-- A module of an entry of `req_handlers` in the parsed file: its settings `name` and `module`. -/
structure ModuleSetting where
  name : Option Bytes
  module : Option Bytes

/-- An entry of `req_handlers` in the parsed file: its settings `handler`, `class` and `modules`. -/
structure HandlerSetting where
  handler : Option Bytes
  className : Option Bytes
  modules : Option (List ModuleSetting)

/-- `modules_config_t` -/
structure ModulesConfig where
  name : Bytes
  module : Bytes
  deriving DecidableEq

/-- A new `modules_config_t` -/
def ModulesConfig.new : ModulesConfig := { name := [], module := [] }

/-- The pointer `modules`: the address that the memory of the entry held, or the array allocated for it. -/
inductive ModulesPointer where
  | wild (address : UInt64)
  | array (modules : List ModulesConfig)
  deriving DecidableEq

namespace ModulesPointer

/-- The number of modules allocated. -/
def allocated : ModulesPointer → Nat
  | wild _ => 0
  | array modules => modules.length

/-- `modules[j]`, none where no module is allocated. -/
def get? : ModulesPointer → Nat → Option ModulesConfig
  | wild _, _ => none
  | array modules, j => modules[j]?

end ModulesPointer

/-- `req_handlers_config_t` -/
structure ReqHandlersConfig where
  name : Bytes
  className : Bytes
  modulesCount : Nat
  modules : ModulesPointer
  deriving DecidableEq

/-- What the memory of a new entry holds. -/
structure EntryMemory where
  modulesCount : UInt32
  modules : UInt64

/-- A new `req_handlers_config_t`: the strings are empty, the other members hold what the memory held. -/
def ReqHandlersConfig.new (memory : EntryMemory) : ReqHandlersConfig where
  name := []
  className := []
  modulesCount := memory.modulesCount.toNat
  modules := .wild memory.modules

/-- The part of `config_t` about the request handlers -/
structure HandlersConfig where
  reqHandlersCount : Nat
  reqHandlers : List ReqHandlersConfig

/-- What `Config::Config` sets. -/
def HandlersConfig.new : HandlersConfig := { reqHandlersCount := 0, reqHandlers := [] }

/-! ## Reading -/

/-- The loop over the modules of an entry: the array after it, and false if a setting was not found. -/
def readModules : List ModuleSetting → List ModulesConfig × Bool
  | [] => ([], true)
  | setting :: settings =>
    match setting.name, setting.module with
    | some name, some module =>
      let (modules, found) := readModules settings
      ({ name, module } :: modules, found)
    -- the modules behind the exception stay as they were allocated
    | some name, none => ({ ModulesConfig.new with name } :: settings.map (fun _ => .new), false)
    | none, _ => (.new :: settings.map (fun _ => .new), false)

/-- One pass of the loop over the entries: the entry after it, and false if a setting was not found. -/
def readReqHandlerConfig (entry : ReqHandlersConfig) (setting : HandlerSetting) : ReqHandlersConfig × Bool :=
  match setting.handler with
  | none => (entry, false)
  | some name =>
    match setting.className with
    | none => ({ entry with name }, false)
    | some className =>
      match setting.modules with
      | some modules =>
        let (array, found) := readModules modules
        ({ name, className, modulesCount := modules.length, modules := .array array }, found)
      -- only a message is logged
      | none => ({ entry with name, className }, true)

/-- The loop over the entries; an exception leaves the entries behind it as they are. -/
def readReqHandlers : List ReqHandlersConfig → List HandlerSetting → List ReqHandlersConfig
  | entry :: entries, setting :: settings =>
    let (entry, found) := readReqHandlerConfig entry setting
    if found then entry :: readReqHandlers entries settings else entry :: entries
  | entries, _ => entries

/-- `Config::read_req_handler_configs`, given the setting `req_handlers` of the file and what the memory of the new entries holds. -/
def readReqHandlerConfigs (memory : Nat → EntryMemory) : Option (List HandlerSetting) → HandlersConfig
  | some settings =>
    { reqHandlersCount := settings.length
      reqHandlers := readReqHandlers ((List.range settings.length).map (fun i => .new (memory i))) settings }
  | none => HandlersConfig.new

/-- The loop of `Config::~Config` over the entries: the arrays it deletes, none if it deletes what is not allocated. -/
def deleteModules : List ReqHandlersConfig → Option (List (List ModulesConfig))
  | [] => some []
  | entry :: entries =>
    if entry.modulesCount > 0 then
      match entry.modules with
      | .array modules => (deleteModules entries).map (modules :: ·)
      -- to delete `NULL` does nothing
      | .wild address => if address = 0 then deleteModules entries else none
    else deleteModules entries

/-! ## What is initialised -/

/-- `modules_count` is the length of the array allocated, 0 if none is. -/
def ReqHandlersConfig.Initialised (entry : ReqHandlersConfig) : Prop := entry.modulesCount = entry.modules.allocated

instance (entry : ReqHandlersConfig) : Decidable entry.Initialised := inferInstanceAs (Decidable (_ = _))

/-- There are as many entries as `req_handlers_count` says, and all are initialised. -/
structure HandlersConfig.Initialised (config : HandlersConfig) : Prop where
  count : config.reqHandlers.length = config.reqHandlersCount
  entries : ∀ entry ∈ config.reqHandlers, entry.Initialised

/-- Below the count of an initialised entry there is a module. -/
theorem ReqHandlersConfig.Initialised.get? {entry : ReqHandlersConfig} (h : entry.Initialised) {j : Nat}
    (hj : j < entry.modulesCount) : ∃ module, entry.modules.get? j = some module := by
  rw [ReqHandlersConfig.Initialised] at h
  rw [h] at hj
  cases hm : entry.modules with
  | wild address =>
    rw [hm] at hj
    exact absurd hj (Nat.not_lt_zero j)
  | array modules =>
    rw [hm] at hj
    exact ⟨modules[j], List.getElem?_eq_getElem hj⟩

/-- Of initialised entries the destructor deletes arrays only. -/
theorem deleteModules_initialised : ∀ {entries : List ReqHandlersConfig}, (∀ entry ∈ entries, entry.Initialised) →
    ∃ arrays, deleteModules entries = some arrays
  | [], _ => ⟨[], rfl⟩
  | entry :: entries, h => by
    obtain ⟨arrays, hrest⟩ := deleteModules_initialised (fun e he => h e (List.mem_cons_of_mem _ he))
    have hentry := h entry List.mem_cons_self
    rw [deleteModules]
    by_cases hcount : entry.modulesCount > 0
    · rw [if_pos hcount]
      obtain ⟨module, hmodule⟩ := hentry.get? hcount
      cases hm : entry.modules with
      | wild address =>
        rw [hm] at hmodule
        nomatch hmodule
      | array modules => exact ⟨modules :: arrays, by rw [hrest]; rfl⟩
    · rw [if_neg hcount]
      exact ⟨arrays, hrest⟩

/-- A module has both settings. -/
def ModuleSetting.Complete (setting : ModuleSetting) : Prop := setting.name.isSome ∧ setting.module.isSome

/-- An entry has its three settings. -/
def HandlerSetting.Complete (setting : HandlerSetting) : Prop :=
  setting.handler.isSome ∧ setting.className.isSome ∧ setting.modules.isSome

/-- Each module of an entry has both settings. -/
def HandlerSetting.ModulesComplete (setting : HandlerSetting) : Prop :=
  ∀ modules, setting.modules = some modules → ∀ module ∈ modules, module.Complete

theorem length_readModules : ∀ settings : List ModuleSetting, (readModules settings).1.length = settings.length
  | [] => rfl
  | setting :: settings => by
    have ih := length_readModules settings
    rw [readModules]
    split
    · simp only [List.length_cons, ih]
    · simp
    · simp

/-- The modules are read to the end exactly if each has both settings. -/
theorem readModules_found : ∀ settings : List ModuleSetting,
    (readModules settings).2 = true ↔ ∀ setting ∈ settings, setting.Complete
  | [] => by simp [readModules]
  | setting :: settings => by
    have ih := readModules_found settings
    rw [readModules, List.forall_mem_cons, ← ih]
    split
    · rename_i hname hmodule
      simp [ModuleSetting.Complete, hname, hmodule]
    · rename_i hname hmodule
      simp [ModuleSetting.Complete, hmodule]
    · rename_i hname
      simp [ModuleSetting.Complete, hname]

end BitzServer
