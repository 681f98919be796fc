import BitzServer.Icap.Text
import BitzServer.Lib.Slots

/-!
# The worker pool

`bitz::Manager`, with the statements of `spawn` and `spawn_worker` that write to it one by one, and `reap_worker` and `shutdown`, which
the signal handlers call.
-/

namespace BitzServer

/-- `worker_pool_t`; the worker is an address, 0 for `NULL` -/
structure WorkerPool where
  workerPid : Int
  workerId : Nat
  worker : Nat
  deriving DecidableEq

/-- `manager_t`; the pool has `max_workers` slots once it is there -/
structure Manager where
  worker : Bool
  maxWorkers : Nat
  workersCount : Nat
  workerId : Nat
  workerPool : Option (List WorkerPool)
  deriving DecidableEq

/-- The signals of `shutdown`. -/
inductive Signal where
  | term
  | kill
  deriving DecidableEq

/-- What `shutdown` does: it sends a signal to a process, or deletes the worker object at an address. -/
inductive ShutdownAction where
  | kill (pid : Int) (sig : Signal)
  | delete (worker : Nat)
  deriving DecidableEq

namespace Manager

/-- `Manager::Manager` -/
def new : Manager := { worker := false, maxWorkers := 0, workersCount := 0, workerId := 0, workerPool := none }

/-- The process ids in the pool. -/
def pids (m : Manager) : List Int := (m.workerPool.getD []).map WorkerPool.workerPid

/-- The pool can be walked through: it is there, or it has no slots. -/
def Walkable (m : Manager) : Prop := m.workerPool.isSome = true ∨ m.maxWorkers = 0

instance (m : Manager) : Decidable m.Walkable := inferInstanceAs (Decidable (_ ∨ _))

/-! ## The statements of `spawn` and `spawn_worker` -/

/-- `_manager.max_workers = max_workers` -/
def setMaxWorkers (m : Manager) (maxWorkers : Nat) : Manager := { m with maxWorkers := maxWorkers }

/-- `_manager.worker_pool = new worker_pool_t[max_workers]`: the slots hold what the memory holds -/
def allocate (m : Manager) (memory : List WorkerPool) : Manager := { m with workerPool := some memory }

/-- `_manager.workers_count++` -/
def countWorker (m : Manager) : Manager := { m with workersCount := toUInt32 (m.workersCount + 1) }

/-- The last statements of `spawn_worker` in the manager, which fill the slot. -/
def storeWorker (m : Manager) (workerId : Nat) (workerPid : Int) : Manager :=
  { m with worker := false, workerPool := m.workerPool.map (fun pool => pool.set workerId ⟨workerPid, workerId, 0⟩) }

/-! ## What the signal handlers call -/

/-- The loop of `reap_worker` over the slots: the pool without the process, none if it is in no slot. -/
def reapLoop (workerPid : Int) : List WorkerPool → Option (List WorkerPool)
  | [] => none
  | slot :: pool =>
    if slot.workerPid = workerPid then some ({ slot with workerPid := 0 } :: pool)
    else (reapLoop workerPid pool).map (slot :: ·)

/-- `reap_worker` -/
def reapWorker (m : Manager) (workerPid : Int) : Except Fault Manager :=
  if m.worker then .ok m
  else match m.workerPool with
    | some pool =>
      match reapLoop workerPid pool with
      | some pool => .ok { m with workerPool := some pool, workersCount := toUInt32 (m.workersCount + (2 ^ 32 - 1)) }
      | none => .ok m
    | none => if m.maxWorkers = 0 then .ok m else .error .nullPointer

/-- `shutdown` -/
def shutdown (m : Manager) (graceful : Bool) : Except Fault (List ShutdownAction) :=
  match m.workerPool with
  | some pool =>
    if m.worker then
      match pool[m.workerId]? with
      | some slot => .ok [.delete slot.worker]
      | none => .error .outOfRange
    else .ok ((pool.filter (fun slot => slot.workerPid ≠ 0)).map
      (fun slot => .kill slot.workerPid (if graceful then .term else .kill)))
  | none => if ¬m.worker ∧ m.maxWorkers = 0 then .ok [] else .error .nullPointer

/-! ## What they do to the process ids -/

@[simp]
theorem pids_setMaxWorkers (m : Manager) (n : Nat) : (m.setMaxWorkers n).pids = m.pids := rfl

@[simp]
theorem pids_allocate (m : Manager) (memory : List WorkerPool) : (m.allocate memory).pids = memory.map WorkerPool.workerPid := rfl

@[simp]
theorem pids_countWorker (m : Manager) : m.countWorker.pids = m.pids := rfl

@[simp]
theorem pids_storeWorker (m : Manager) (i : Nat) (pid : Int) : (m.storeWorker i pid).pids = m.pids.set i pid := by
  unfold pids storeWorker
  cases m.workerPool with
  | none => rfl
  | some pool => exact List.map_set

/-- `reap_worker` clears the first slot with the process. -/
theorem map_reapLoop (pid : Int) (pool : List WorkerPool) : match reapLoop pid pool with
    | some pool' => pid ∈ pool.map WorkerPool.workerPid ∧
        pool'.map WorkerPool.workerPid = (pool.map WorkerPool.workerPid).replace pid 0
    | none => pid ∉ pool.map WorkerPool.workerPid := by
  induction pool with
  | nil => simp [reapLoop]
  | cons slot pool ih =>
    rw [reapLoop]
    by_cases h : slot.workerPid = pid
    · simp [h]
    · rw [if_neg h]
      cases hloop : reapLoop pid pool with
      | none =>
        rw [hloop] at ih
        simpa [Ne.symm h] using ih
      | some pool' =>
        rw [hloop] at ih
        have hne : (pid == slot.workerPid) = false := by simpa using Ne.symm h
        simp [ih.1, ih.2, List.replace_cons, hne]

/-- Only the slots and the count of workers differ. -/
structure Alike (m m' : Manager) : Prop where
  worker : m'.worker = m.worker
  maxWorkers : m'.maxWorkers = m.maxWorkers
  workerPool : m'.workerPool.isSome = m.workerPool.isSome

/-- `reap_worker` in the manager: the first slot with the process is cleared, and one worker less is counted if there is one. -/
theorem reapWorker_spec {m : Manager} (hworker : m.worker = false) (hwalk : m.Walkable) (pid : Int) : ∃ m',
    m.reapWorker pid = .ok m' ∧ m.Alike m' ∧ m'.pids = m.pids.replace pid 0 ∧
      m'.workersCount = if pid ∈ m.pids then toUInt32 (m.workersCount + (2 ^ 32 - 1)) else m.workersCount := by
  have hnot : ¬m.worker = true := by simp [hworker]
  unfold reapWorker
  rw [if_neg hnot]
  rcases hpool : m.workerPool with _ | pool
  · have hpids : m.pids = [] := by simp [pids, hpool]
    have hmax : m.maxWorkers = 0 := hwalk.resolve_left (by simp [hpool])
    exact ⟨m, if_pos hmax, ⟨rfl, rfl, rfl⟩, by simp [hpids], by simp [hpids]⟩
  · have hpids : m.pids = pool.map WorkerPool.workerPid := by simp [pids, hpool]
    have hloop := map_reapLoop pid pool
    rcases hreap : reapLoop pid pool with _ | pool'
    · rw [hreap, ← hpids] at hloop
      exact ⟨m, by simp only [hreap], ⟨rfl, rfl, rfl⟩, (List.replace_of_not_mem hloop).symm, (if_neg hloop).symm⟩
    · rw [hreap, ← hpids] at hloop
      obtain ⟨hmem, hpids'⟩ := hloop
      exact ⟨{ m with workerPool := some pool', workersCount := toUInt32 (m.workersCount + (2 ^ 32 - 1)) }, by simp only [hreap],
        ⟨rfl, rfl, by rw [hpool]; rfl⟩, hpids', (if_pos hmem).symm⟩

/-- What `reap_worker` keeps of the pool it walks through. -/
theorem Alike.walkable {m m' : Manager} (h : m.Alike m') (hwalk : m.Walkable) : m'.Walkable := by
  unfold Walkable
  rw [h.workerPool, h.maxWorkers]
  exact hwalk

theorem Alike.trans {m m' m'' : Manager} (h : m.Alike m') (h' : m'.Alike m'') : m.Alike m'' :=
  ⟨h'.worker.trans h.worker, h'.maxWorkers.trans h.maxWorkers, h'.workerPool.trans h.workerPool⟩

/-- Reaping one process after the other. -/
theorem reapWorkers_spec : ∀ (order : List Int) {m : Manager}, m.worker = false → m.Walkable → ∃ m',
    order.foldlM reapWorker m = .ok m' ∧ m.Alike m' ∧ m'.pids = Slots.clear 0 m.pids order
  | [], m, _, _ => ⟨m, rfl, ⟨rfl, rfl, rfl⟩, rfl⟩
  | pid :: order, m, hworker, hwalk => by
    obtain ⟨m1, hrun1, hlike1, hpids1, -⟩ := reapWorker_spec hworker hwalk pid
    obtain ⟨m2, hrun2, hlike2, hpids2⟩ := reapWorkers_spec order (hlike1.worker.trans hworker) (hlike1.walkable hwalk)
    refine ⟨m2, ?_, hlike1.trans hlike2, ?_⟩
    · rw [List.foldlM_cons, hrun1]
      exact hrun2
    · rw [hpids2, hpids1]
      rfl

/-- The count stays by `k` above the number of the slots in use. -/
theorem reapWorkers_count {k : Nat} : ∀ {order : List Int} {m m' : Manager}, m.worker = false → m.Walkable →
    order.foldlM reapWorker m = .ok m' → (∀ pid ∈ order, pid ≠ 0) → m.workersCount < 2 ^ 32 →
    m.workersCount = (Slots.used 0 m.pids).length + k → m'.workersCount = (Slots.used 0 m'.pids).length + k
  | [], m, m', _, _, hrun, _, _, hcount => by
    obtain rfl := Except.ok.inj hrun
    exact hcount
  | pid :: order, m, m', hworker, hwalk, hrun, hne, hlt, hcount => by
    obtain ⟨m1, hrun1, hlike1, hpids1, hcount1⟩ := reapWorker_spec hworker hwalk pid
    rw [List.foldlM_cons, hrun1] at hrun
    have hused := Slots.used_replace (hne pid List.mem_cons_self) m.pids
    have hnext : m1.workersCount < 2 ^ 32 ∧ m1.workersCount = (Slots.used 0 m1.pids).length + k := by
      rw [hcount1, hpids1, hused]
      by_cases hmem : pid ∈ m.pids
      · have hpos := List.length_pos_of_mem (Slots.mem_used.mpr ⟨hmem, hne pid List.mem_cons_self⟩)
        rw [if_pos hmem, List.length_erase_of_mem (Slots.mem_used.mpr ⟨hmem, hne pid List.mem_cons_self⟩)]
        unfold toUInt32
        omega
      · rw [if_neg hmem, List.erase_of_not_mem fun h => hmem (Slots.mem_used.mp h).1]
        exact ⟨hlt, hcount⟩
    exact reapWorkers_count (hlike1.worker.trans hworker) (hlike1.walkable hwalk) hrun
      (fun p hp => hne p (List.mem_cons_of_mem _ hp)) hnext.1 hnext.2

/-- The count stays if no process is in the pool. -/
theorem reapWorkers_unknown : ∀ {order : List Int} {m m' : Manager}, m.worker = false → m.Walkable →
    order.foldlM reapWorker m = .ok m' → (∀ pid ∈ order, pid ∉ m.pids) → m'.workersCount = m.workersCount
  | [], m, m', _, _, hrun, _ => by
    obtain rfl := Except.ok.inj hrun
    rfl
  | pid :: order, m, m', hworker, hwalk, hrun, hnot => by
    obtain ⟨m1, hrun1, hlike1, hpids1, hcount1⟩ := reapWorker_spec hworker hwalk pid
    rw [List.foldlM_cons, hrun1] at hrun
    have hmem := hnot pid List.mem_cons_self
    rw [List.replace_of_not_mem hmem] at hpids1
    rw [if_neg hmem] at hcount1
    exact (reapWorkers_unknown (hlike1.worker.trans hworker) (hlike1.walkable hwalk) hrun
      (fun p hp => hpids1 ▸ hnot p (List.mem_cons_of_mem _ hp))).trans hcount1

/-- The processes a graceful `shutdown` sends a signal to; none where it walks through a pool that is not there. -/
theorem shutdown_graceful {m : Manager} (hworker : m.worker = false) : m.shutdown true =
    if m.Walkable then .ok ((Slots.used 0 m.pids).map (fun pid => .kill pid .term)) else .error .nullPointer := by
  obtain ⟨worker, maxWorkers, workersCount, workerId, _ | pool⟩ := m
  · replace hworker : worker = false := hworker
    simp [shutdown, Walkable, pids, Slots.used, hworker]
  · replace hworker : worker = false := hworker
    simp [shutdown, Walkable, pids, Slots.used, hworker, List.filter_map, Function.comp_def]

end Manager

end BitzServer
