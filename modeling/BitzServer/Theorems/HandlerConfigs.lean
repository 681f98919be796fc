import BitzServer.Server.ModuleEvents

/-!
# What the configuration leaves uninitialised

`modules_count` of an entry is trusted by `RequestHandler::load_modules` and by `Config::~Config`. `Config::read_req_handler_configs` writes it
only for an entry with `modules`, and no more after a setting that is not found.
-/

namespace BitzServer

/-- The counts are those of the arrays, so that `load_modules` reads and `~Config` deletes only what is allocated. -/
structure HandlersConfig.Trusted (config : HandlersConfig) : Prop where
  initialised : config.Initialised
  loads : ∀ method host, ∃ handlers host', (loadModules method config.reqHandlers).run host = .ok (handlers, host')
  deletes : ∃ arrays, deleteModules config.reqHandlers = some arrays

namespace ConfigAux

/-- What the counts say is what the readers rely on. -/
theorem trusted_of_initialised {config : HandlersConfig} (h : config.Initialised) : config.Trusted where
  initialised := h
  loads := by
    intro method host
    obtain ⟨handlers, host', -, hrun, -⟩ :=
      loadModules_run method (fun entry hfind => h.entries entry (List.mem_of_find?_eq_some hfind)) host
    exact ⟨handlers, host', hrun⟩
  deletes := deleteModules_initialised h.entries

/-! ### One entry -/

/-- An entry with its three settings is initialised, even if one of its modules is not read. -/
theorem readReqHandlerConfig_complete {setting : HandlerSetting} (h : setting.Complete) (entry : ReqHandlersConfig) :
    (readReqHandlerConfig entry setting).1.Initialised := by
  obtain ⟨hhandler, hclass, hmodules⟩ := h
  obtain ⟨name, hhandler⟩ := Option.isSome_iff_exists.mp hhandler
  obtain ⟨className, hclass⟩ := Option.isSome_iff_exists.mp hclass
  obtain ⟨modules, hmodules⟩ := Option.isSome_iff_exists.mp hmodules
  simp only [readReqHandlerConfig, hhandler, hclass, hmodules]
  exact (length_readModules modules).symm

/-- An entry that lacks a setting keeps the count and the pointer that its memory held. -/
theorem readReqHandlerConfig_incomplete {setting : HandlerSetting} (h : ¬setting.Complete) (entry : ReqHandlersConfig) :
    (readReqHandlerConfig entry setting).1.Initialised ↔ entry.Initialised := by
  rw [readReqHandlerConfig]
  cases hhandler : setting.handler with
  | none => exact Iff.rfl
  | some name =>
    cases hclass : setting.className with
    | none => exact Iff.rfl
    | some className =>
      cases hmodules : setting.modules with
      | none => exact Iff.rfl
      | some modules => exact absurd ⟨by rw [hhandler]; rfl, by rw [hclass]; rfl, by rw [hmodules]; rfl⟩ h

/-- The reading goes on behind an entry with its three settings exactly if each of its modules has both settings. -/
theorem readReqHandlerConfig_found {setting : HandlerSetting} (h : setting.Complete) (entry : ReqHandlersConfig) :
    (readReqHandlerConfig entry setting).2 = true ↔ setting.ModulesComplete := by
  obtain ⟨hhandler, hclass, hmodules⟩ := h
  obtain ⟨name, hhandler⟩ := Option.isSome_iff_exists.mp hhandler
  obtain ⟨className, hclass⟩ := Option.isSome_iff_exists.mp hclass
  obtain ⟨modules, hmodules⟩ := Option.isSome_iff_exists.mp hmodules
  simp only [readReqHandlerConfig, hhandler, hclass, hmodules, HandlerSetting.ModulesComplete, Option.some.injEq, forall_eq']
  exact readModules_found modules

/-! ### All entries -/

theorem readReqHandlers_nil (settings : List HandlerSetting) : readReqHandlers [] settings = [] := by
  cases settings <;> rfl

/-- An entry is read, and the entries behind it are read or left as they are. -/
theorem readReqHandlers_cons (entry : ReqHandlersConfig) (entries : List ReqHandlersConfig) (setting : HandlerSetting)
    (settings : List HandlerSetting) : readReqHandlers (entry :: entries) (setting :: settings) =
      (readReqHandlerConfig entry setting).1 ::
        if (readReqHandlerConfig entry setting).2 then readReqHandlers entries settings else entries := by
  rw [readReqHandlers]
  dsimp only
  split <;> rfl

theorem length_readReqHandlers : ∀ (settings : List HandlerSetting) (entries : List ReqHandlersConfig),
    (readReqHandlers entries settings).length = entries.length
  | settings, [] => by rw [readReqHandlers_nil]
  | [], _ :: _ => rfl
  | setting :: settings, entry :: entries => by
    have ih := length_readReqHandlers settings entries
    rw [readReqHandlers_cons, List.length_cons, List.length_cons]
    split
    · rw [ih]
    · rfl

/-- Every entry has its three settings, and before the last entry each module has both settings. -/
def EntriesComplete (settings : List HandlerSetting) : Prop :=
  (∀ setting ∈ settings, setting.Complete) ∧ ∀ setting ∈ settings.dropLast, setting.ModulesComplete

theorem entriesComplete_singleton (setting : HandlerSetting) : EntriesComplete [setting] ↔ setting.Complete := by
  simp [EntriesComplete]

theorem entriesComplete_cons_cons (setting next : HandlerSetting) (settings : List HandlerSetting) :
    EntriesComplete (setting :: next :: settings) ↔
      setting.Complete ∧ setting.ModulesComplete ∧ EntriesComplete (next :: settings) := by
  rw [EntriesComplete, EntriesComplete, List.dropLast_cons_cons, List.forall_mem_cons (l := next :: settings),
    List.forall_mem_cons (l := (next :: settings).dropLast)]
  constructor
  · rintro ⟨⟨h1, h2⟩, h3, h4⟩
    exact ⟨h1, h3, h2, h4⟩
  · rintro ⟨h1, h3, h2, h4⟩
    exact ⟨⟨h1, h2⟩, h3, h4⟩

/-- Whatever the memory held, the entries are initialised if no setting is missing but in the modules of the last. -/
theorem initialised_of_complete : ∀ (settings : List HandlerSetting) (entries : List ReqHandlersConfig),
    entries.length = settings.length → EntriesComplete settings → ∀ entry ∈ readReqHandlers entries settings, entry.Initialised
  | [], entries, hlen, _ => by
    rw [List.length_eq_zero_iff.mp hlen, readReqHandlers_nil]
    exact nofun
  | [setting], entries, hlen, hcomplete => by
    obtain ⟨entry, rfl⟩ := List.length_eq_one_iff.mp hlen
    rw [readReqHandlers_cons, readReqHandlers_nil, ite_self, List.forall_mem_singleton]
    exact readReqHandlerConfig_complete ((entriesComplete_singleton setting).mp hcomplete) entry
  | setting :: next :: settings, entry :: entries, hlen, hcomplete => by
    obtain ⟨hsetting, hmodules, hrest⟩ := (entriesComplete_cons_cons setting next settings).mp hcomplete
    have hfound := (readReqHandlerConfig_found hsetting entry).mpr hmodules
    rw [readReqHandlers_cons, if_pos hfound, List.forall_mem_cons]
    exact ⟨readReqHandlerConfig_complete hsetting entry,
      initialised_of_complete (next :: settings) entries (Nat.succ.inj hlen) hrest⟩

/-- If the memory of every entry held another count than that of its array, an entry that is initialised has been read. -/
theorem complete_of_initialised : ∀ (settings : List HandlerSetting) (entries : List ReqHandlersConfig),
    entries.length = settings.length → (∀ entry ∈ entries, ¬entry.Initialised) →
      (∀ entry ∈ readReqHandlers entries settings, entry.Initialised) → EntriesComplete settings
  | [], _, _, _, _ => ⟨nofun, nofun⟩
  | setting :: settings, entry :: entries, hlen, hmemory, hall => by
    rw [readReqHandlers_cons, List.forall_mem_cons] at hall
    obtain ⟨hentry, hentries⟩ := hall
    have hsetting : setting.Complete := by
      by_contra hnot
      exact hmemory entry List.mem_cons_self ((readReqHandlerConfig_incomplete hnot entry).mp hentry)
    cases settings with
    | nil => exact (entriesComplete_singleton setting).mpr hsetting
    | cons next settings =>
      obtain ⟨other, entries, rfl⟩ := List.exists_cons_of_length_eq_add_one (Nat.succ.inj hlen)
      -- the next entry is not as its memory was, so the reading went on
      have hfound : (readReqHandlerConfig entry setting).2 = true := by
        by_contra hnot
        rw [if_neg hnot] at hentries
        exact hmemory other (by simp) (hentries other List.mem_cons_self)
      rw [if_pos hfound] at hentries
      exact (entriesComplete_cons_cons setting next settings).mpr ⟨hsetting, (readReqHandlerConfig_found hsetting entry).mp hfound,
        complete_of_initialised (next :: settings) (other :: entries) (Nat.succ.inj hlen)
          (fun e he => hmemory e (List.mem_cons_of_mem _ he)) hentries⟩

end ConfigAux

open ConfigAux

/-- Whatever the memory of the new entries holds, the counts of the configuration can be trusted exactly if every entry of the file has
`handler`, `class` and `modules`, and every module before the last entry `name` and `module`. -/
theorem trusted_iff (reqHandlers : Option (List HandlerSetting)) :
    (∀ memory, (readReqHandlerConfigs memory reqHandlers).Trusted) ↔
      ∀ settings, reqHandlers = some settings →
        (∀ setting ∈ settings, setting.Complete) ∧ ∀ setting ∈ settings.dropLast, setting.ModulesComplete := by
  cases reqHandlers with
  | none => exact iff_of_true (fun memory => trusted_of_initialised ⟨rfl, nofun⟩) nofun
  | some settings =>
    constructor
    · intro h _ heq
      obtain rfl := Option.some.inj heq
      have hcount := (h fun _ => { modulesCount := 1, modules := 0 }).initialised.entries
      have hmemory : ¬(ReqHandlersConfig.new { modulesCount := 1, modules := 0 }).Initialised := by decide
      refine complete_of_initialised settings _ (by simp) ?_ hcount
      intro entry hmem
      obtain ⟨i, -, rfl⟩ := List.mem_map.mp hmem
      exact hmemory
    · intro hcomplete memory
      refine trusted_of_initialised ⟨?_, initialised_of_complete settings _ (by simp) (hcomplete settings rfl)⟩
      simp [readReqHandlerConfigs, length_readReqHandlers]

/-- An entry without `modules`, whose memory held a count of 1 and an address: `~Config` deletes what lies there. -/
theorem trusted_false : ¬∀ (reqHandlers : Option (List HandlerSetting)) (memory : Nat → EntryMemory),
    (readReqHandlerConfigs memory reqHandlers).Trusted := by
  intro h
  obtain ⟨arrays, hdeletes⟩ := (h
    (some [{ handler := some (bytes "REQMOD"), className := some (bytes "ReqmodRequestHandler"), modules := none }])
    (fun _ => { modulesCount := 1, modules := 8 })).deletes
  nomatch hdeletes

end BitzServer
