import BitzServer.Server.ManageWorkers

/-!
# The account of the pool

The count of workers is the number of slots in use in every state after `spawn`, whatever is reaped between two calls of
`spawn_worker`, and `manage_workers` ends exactly when no slot is empty.
-/

namespace BitzServer

open Runs

namespace ManagedPool

/-- The slots that have been filled. -/
def filled (s : ManagedPool) : List Int :=
  match s.pc with
  | .spawning i => s.manager.pids.take i
  | _ => s.manager.pids

/-- The slot `spawn_worker` is about to fill is empty; `spawn` has not filled more slots than there are. -/
def SlotAt (n : Nat) (m : Manager) : PoolPc → Prop
  | .spawning i => i ≤ n
  | .missing i => m.pids[i]? = some 0
  | _ => True

/-- What holds in all states with a manager: the filled slots are the workers that have not been reaped, and they are counted. -/
structure Balanced (n : Nat) (s : ManagedPool) : Prop where
  worker : s.manager.worker = false
  allocated : ManagerProcess.Allocated n s.manager
  pos : ∀ pid ∈ s.children, 0 < pid
  nodup : s.children.Nodup
  used : (Slots.used 0 s.filled).Perm s.children
  count : s.manager.workersCount = s.children.length
  slot : SlotAt n s.manager s.pc

end ManagedPool

namespace PoolAccountingAux

open ManagedPool

/-- No more filled slots are in use than there are slots. -/
theorem length_used_le (s : ManagedPool) : (Slots.used 0 s.filled).length ≤ s.manager.pids.length := by
  refine Nat.le_trans (List.length_filter_le ..) ?_
  unfold filled
  split
  · exact List.length_take_le' ..
  · exact Nat.le_refl _

theorem balanced_new {n : Nat} {memory : List WorkerPool} (hmemory : memory.length = n) : Balanced n (new n memory) where
  worker := rfl
  allocated := ⟨rfl, rfl, by simp [new, hmemory]⟩
  pos := by simp [new]
  nodup := List.nodup_nil
  used := List.Perm.refl []
  count := rfl
  slot := Nat.zero_le n

/-- A test leaves the slots. -/
theorem Balanced.of_pc {n : Nat} {s : ManagedPool} (h : Balanced n s) {pc : PoolPc}
    (hfilled : ({ s with pc := pc } : ManagedPool).filled = s.filled) (hslot : SlotAt n s.manager pc) :
    Balanced n { s with pc := pc } :=
  ⟨h.worker, h.allocated, h.pos, h.nodup, hfilled ▸ h.used, h.count, hslot⟩

/-- A fork fills an empty slot and counts it, if the table of filled slots has the child more. -/
theorem Balanced.fork {n i : Nat} {pid : Int} {pc : PoolPc} {s : ManagedPool} (h : Balanced n s) (hn : n < 2 ^ 32) (hpos : 0 < pid)
    (hfresh : pid ∉ s.children) {s' : ManagedPool}
    (hs' : s' = { pc := pc, manager := s.manager.countWorker.storeWorker i pid, children := pid :: s.children })
    (hused : (Slots.used 0 s'.filled).Perm (pid :: Slots.used 0 s.filled)) (hslot : SlotAt n s'.manager s'.pc) : Balanced n s' := by
  have hperm : (Slots.used 0 s'.filled).Perm s'.children := by
    rw [hs'] at hused ⊢
    exact hused.trans (h.used.cons pid)
  have halloc : ManagerProcess.Allocated n s'.manager := by
    rw [hs']
    refine ⟨h.allocated.maxWorkers, ?_, ?_⟩
    · rw [← h.allocated.workerPool]
      exact Option.isSome_map ..
    · rw [Manager.pids_storeWorker, List.length_set, Manager.pids_countWorker, h.allocated.length]
  have hlen : s'.children.length ≤ n := by
    have hle := length_used_le s'
    have hpids := halloc.length
    have := hperm.length_eq
    omega
  have hcount : s'.manager.workersCount = s'.children.length := by
    rw [hs'] at hlen ⊢
    show toUInt32 (s.manager.workersCount + 1) = _
    have := h.count
    simp only [List.length_cons] at hlen ⊢
    unfold toUInt32
    omega
  refine ⟨by rw [hs']; rfl, halloc, ?_, ?_, hperm, hcount, hslot⟩
  · rw [hs']
    intro p hp
    rcases List.mem_cons.mp hp with rfl | hp
    · exact hpos
    · exact h.pos p hp
  · rw [hs']
    exact List.nodup_cons.mpr ⟨hfresh, h.nodup⟩

/-- `reap_worker` clears the slot of the worker and takes it from the workers that have not been reaped. -/
theorem reapWorker_eq {n : Nat} {s : ManagedPool} (h : Balanced n s) (pid : Int) : ∃ m,
    s.reapWorker pid = { s with manager := m, children := s.children.erase pid } ∧ s.manager.Alike m ∧
      m.pids = s.manager.pids.replace pid 0 ∧
      m.workersCount = if pid ∈ s.manager.pids then toUInt32 (s.manager.workersCount + (2 ^ 32 - 1)) else s.manager.workersCount := by
  obtain ⟨m, hrun, hlike, hpids, hcount⟩ := Manager.reapWorker_spec h.worker (.inl h.allocated.workerPool) pid
  refine ⟨m, ?_, hlike, hpids, hcount⟩
  unfold ManagedPool.reapWorker
  rw [hrun]

/-- A worker that may be reaped is in a filled slot, if it is in any. -/
theorem filled_reapWorker {n : Nat} {s : ManagedPool} (h : Balanced n s) {pid : Int} (hpos : 0 < pid)
    (hmem : s.pc.spawned = true ∨ pid ∈ s.children) (hexited : s.pc ≠ .exited) :
    (s.reapWorker pid).filled = s.filled.replace pid 0 ∧ (pid ∈ s.manager.pids ↔ pid ∈ s.children) := by
  obtain ⟨m, heq, -, hpids, -⟩ := reapWorker_eq h pid
  have hused : pid ∈ s.filled ↔ pid ∈ s.children := by
    rw [← h.used.mem_iff, Slots.mem_used]
    exact (and_iff_left hpos.ne').symm
  rw [heq]
  unfold filled at hused ⊢
  cases hpc : s.pc with
  | spawning i =>
    have hchild : pid ∈ s.children := hmem.resolve_left (by simp [hpc, PoolPc.spawned])
    simp only [hpc] at hused ⊢
    have htake : pid ∈ s.manager.pids.take i := hused.mpr hchild
    rw [hpids]
    exact ⟨List.replace_take.symm, iff_of_true (List.mem_of_mem_take htake) hchild⟩
  | outside | managing | scanning i | missing i =>
    simp only [hpc] at hused ⊢
    exact ⟨hpids, hused⟩
  | exited => exact absurd hpc hexited

/-- `reap_worker` keeps the account. -/
theorem Balanced.reap {n : Nat} {s : ManagedPool} (h : Balanced n s) (hn : n < 2 ^ 32) {pid : Int} (hpos : 0 < pid)
    (hmem : s.pc.spawned = true ∨ pid ∈ s.children) (hexited : s.pc ≠ .exited) : Balanced n (s.reapWorker pid) := by
  obtain ⟨m, heq, hlike, hpids, hcount⟩ := reapWorker_eq h pid
  obtain ⟨hfilled, hchild⟩ := filled_reapWorker h hpos hmem hexited
  have hle := Nat.le_trans (h.used.length_eq ▸ length_used_le s) (Nat.le_of_eq h.allocated.length)
  have hused : (Slots.used 0 (s.reapWorker pid).filled).Perm (s.children.erase pid) := by
    rw [hfilled, Slots.used_replace hpos.ne']
    exact h.used.erase pid
  have hcounted : m.workersCount = (s.children.erase pid).length := by
    rw [hcount, h.count]
    by_cases hin : pid ∈ s.children
    · have := List.length_pos_of_mem hin
      rw [if_pos (hchild.mpr hin), List.length_erase_of_mem hin]
      unfold toUInt32
      omega
    · rw [if_neg fun hp => hin (hchild.mp hp), List.erase_of_not_mem hin]
  rw [heq] at hused ⊢
  refine ⟨hlike.worker.trans h.worker, ⟨hlike.maxWorkers.trans h.allocated.maxWorkers, hlike.workerPool.trans h.allocated.workerPool, ?_⟩,
    fun p hp => h.pos p (List.mem_of_mem_erase hp), h.nodup.erase pid, hused, hcounted, ?_⟩
  · rw [hpids, List.length_replace, h.allocated.length]
  · have hslot := h.slot
    show SlotAt n m s.pc
    cases hpc : s.pc with
    | missing i =>
      rw [hpc] at hslot
      show m.pids[i]? = some 0
      rw [hpids]
      exact Slots.getElem?_replace pid hslot
    | spawning i =>
      rw [hpc] at hslot
      exact hslot
    | outside | managing | scanning i | exited => trivial

/-- Every step that does not end the process keeps the account. -/
theorem Balanced.step {n : Nat} {s s' : ManagedPool} {a : PoolAction} (h : Balanced n s) (hn : n < 2 ^ 32)
    (hstep : s.step a = some s') (hexited : s'.pc ≠ .exited) : Balanced n s' := by
  have hused := h.used
  have hslot := h.slot
  cases step_cases hstep with
  | @spawned i hpc hi =>
    rw [hpc] at hslot
    have hall : s.manager.pids.take i = s.manager.pids :=
      List.take_of_length_le (by rw [h.allocated.length, ← h.allocated.maxWorkers]; exact not_lt.mp hi)
    refine Balanced.of_pc h ?_ trivial
    unfold filled
    simp only [hpc, hall]
  | stay hpc | call hpc | incomplete hpc hcount | complete hpc hcount | skip hpc | scanned hpc | fillFailed hpc =>
    exact Balanced.of_pc h (by simp [filled, hpc]) trivial
  | found hpc hi hpid => exact Balanced.of_pc h (by simp [filled, hpc]) hpid
  | @spawn i pid hpc hi hpos hfresh =>
    have hlt : i < s.manager.pids.length := by rw [h.allocated.length, ← h.allocated.maxWorkers]; exact hi
    refine Balanced.fork h hn hpos hfresh rfl ?_ (show i + 1 ≤ n from h.allocated.maxWorkers ▸ hi)
    have hone : Slots.used 0 [pid] = [pid] := by simp [Slots.used, hpos.ne']
    unfold filled
    simp only [hpc, Manager.pids_storeWorker, Manager.pids_countWorker]
    rw [Slots.take_set_succ hlt, Slots.used_append, hone]
    exact List.perm_append_singleton ..
  | @fill i pid hpc hpos hfresh =>
    rw [hpc] at hslot
    refine Balanced.fork h hn hpos hfresh rfl ?_ trivial
    unfold filled
    simp only [hpc, Manager.pids_storeWorker, Manager.pids_countWorker]
    exact Slots.used_set hpos.ne' hslot
  | spawnFailed hpc => exact absurd rfl hexited
  | reap hpc hpos hmem => exact Balanced.reap h hn hpos hmem hpc

end PoolAccountingAux

open PoolAccountingAux ManagedPool

/-- What the pool says about the workers. -/
structure Accurate (n : Nat) (s : ManagedPool) : Prop where
  count : s.manager.workersCount = (s.manager.pids.filter (fun pid => pid ≠ 0)).length
  distinct : (s.manager.pids.filter (fun pid => pid ≠ 0)).Nodup
  bounded : s.manager.pids.length = n ∧ s.manager.workersCount ≤ n
  /-- `spawn_worker` is called for empty slots only. -/
  calls : ∀ i, s.pc = .missing i → s.manager.pids[i]? = some 0
  /-- The outer loop ends when no slot is empty, and finds an empty slot when it goes on. -/
  test : s.pc = .managing → (s.step .run = some { s with pc := .outside } ∧ ∀ pid ∈ s.manager.pids, pid ≠ 0) ∨
    (s.step .run = some { s with pc := .scanning 0 } ∧ 0 ∈ s.manager.pids)
  /-- The count changes by one at most, without a wrap. -/
  noWrap : ∀ a s', s.step a = some s' → s'.manager.workersCount = s.manager.workersCount ∨
    s'.manager.workersCount = s.manager.workersCount + 1 ∨ s'.manager.workersCount + 1 = s.manager.workersCount

namespace PoolAccountingAux

/-- The account holds in every state that is reached with a manager. -/
theorem balanced_of_reach {n : Nat} (hn : n < 2 ^ 32) {memory : List WorkerPool} (hmemory : memory.length = n) {s : ManagedPool}
    (h : Reach step (fun _ _ => True) (new n memory) s) (hexited : s.pc ≠ .exited) : Balanced n s := by
  refine Reach.invariant (I := fun s => s.pc ≠ .exited → Balanced n s) h (fun _ => balanced_new hmemory) ?_ hexited
  intro s a s' hinv _ hstep hpc'
  have hpc : s.pc ≠ .exited := by
    intro hpc
    cases step_cases hstep with
    | reap hne => exact hne hpc
    | spawned h | stay h | call h | incomplete h | complete h | found h | skip h | scanned h | spawn h | spawnFailed h | fill h
      | fillFailed h => simp [hpc] at h
  exact Balanced.step (hinv hpc) hn hstep hpc'

/-- After `spawn` all slots have been filled. -/
theorem filled_of_spawned {s : ManagedPool} (h : s.pc.spawned = true) : s.filled = s.manager.pids := by
  unfold filled
  cases hpc : s.pc with
  | spawning i => simp [hpc, PoolPc.spawned] at h
  | outside | managing | scanning i | missing i | exited => rfl

/-- A step changes the count by one at most. -/
theorem count_step {n : Nat} (hn : n < 2 ^ 32) {s s' : ManagedPool} {a : PoolAction} (h : Balanced n s) (hstep : s.step a = some s') :
    s'.manager.workersCount = s.manager.workersCount ∨ s'.manager.workersCount = s.manager.workersCount + 1 ∨
      s'.manager.workersCount + 1 = s.manager.workersCount := by
  have hcount := h.count
  have hcount' : s'.pc ≠ .exited → s'.manager.workersCount = s'.children.length := fun hexited =>
    (Balanced.step h hn hstep hexited).count
  cases step_cases hstep with
  | spawned | stay | call | incomplete | complete | found | skip | scanned | spawnFailed | fillFailed => exact .inl rfl
  | spawn | fill =>
    have := hcount' (by simp)
    rw [List.length_cons, ← hcount] at this
    exact .inr (.inl this)
  | @reap pid hexited =>
    obtain ⟨m, heq, -⟩ := reapWorker_eq h pid
    rw [heq] at hcount' ⊢
    replace hcount' : m.workersCount = (s.children.erase pid).length := hcount' hexited
    show m.workersCount = _ ∨ m.workersCount = _ ∨ m.workersCount + 1 = _
    by_cases hin : pid ∈ s.children
    · have hpos := List.length_pos_of_mem hin
      rw [List.length_erase_of_mem hin] at hcount'
      exact .inr (.inr (by omega))
    · rw [List.erase_of_not_mem hin, ← hcount] at hcount'
      exact .inl hcount'

end PoolAccountingAux

/-- Whatever `fork` returns and whatever is reaped between two calls of `spawn_worker`, the count is the number of the slots in use, the
workers in them are distinct, and `manage_workers` ends exactly when no slot is empty. -/
theorem accurate {n : Nat} (hn : n < 2 ^ 32) {memory : List WorkerPool} (hmemory : memory.length = n) {s : ManagedPool}
    (h : Reach step (fun _ _ => True) (new n memory) s) (hspawned : s.pc.spawned = true) : Accurate n s := by
  have hexited : s.pc ≠ .exited := by
    intro hpc
    simp [hpc, PoolPc.spawned] at hspawned
  have hb := balanced_of_reach hn hmemory h hexited
  have hused : (Slots.used 0 s.manager.pids).Perm s.children := filled_of_spawned hspawned ▸ hb.used
  have hcount : s.manager.workersCount = (Slots.used 0 s.manager.pids).length := hb.count.trans hused.length_eq.symm
  refine ⟨hcount, hused.nodup_iff.mpr hb.nodup, ⟨hb.allocated.length, ?_⟩, ?_, ?_, ?_⟩
  · rw [hcount, ← hb.allocated.length]
    exact List.length_filter_le ..
  · intro i hpc
    have := hb.slot
    rw [hpc] at this
    exact this
  · intro hpc
    have hrun : s.step .run = some { s with pc := if s.manager.workersCount ≠ s.manager.maxWorkers then .scanning 0 else .outside } := by
      simp only [ManagedPool.step, runStep, hpc]
    by_cases hfull : s.manager.workersCount = s.manager.maxWorkers
    · rw [if_neg (not_not.mpr hfull)] at hrun
      rw [hcount, hb.allocated.maxWorkers, ← hb.allocated.length] at hfull
      exact .inl ⟨hrun, Slots.ne_empty_of_length hfull⟩
    · rw [if_pos hfull] at hrun
      refine .inr ⟨hrun, by_contra fun hnone => hfull ?_⟩
      have hall : ∀ pid ∈ s.manager.pids, pid ≠ 0 := fun pid hpid hzero => hnone (hzero ▸ hpid)
      rw [hcount, hb.allocated.maxWorkers, ← hb.allocated.length]
      exact congrArg List.length (List.filter_eq_self.mpr (by simpa using hall))
  · intro a s' hstep
    exact count_step hn hb hstep

/-- One worker of two is reaped while the other slot is scanned, an unknown one after it; the next round of the loop fills its slot. -/
def reapedRun : List PoolAction :=
  [.spawnWorker (some 100), .spawnWorker (some 101), .run, .reapWorker 101, .run, .run, .run, .reapWorker 100, .reapWorker 7, .run,
    .spawnWorker (some 102), .run]

/-- The pool after that run: the first slot is empty, the loop is at its test. -/
def reapedPool : ManagedPool where
  pc := .managing
  manager := { worker := false, maxWorkers := 2, workersCount := 1, workerId := 0, workerPool := some [⟨0, 0, 0⟩, ⟨102, 1, 0⟩] }
  children := [102]

theorem accurate_reaped : Accurate 2 reapedPool := by
  have hexec : exec step (fun _ _ => True) (new 2 [⟨5, 0, 0⟩, ⟨6, 0, 0⟩]) reapedRun = some reapedPool := by decide
  exact accurate (n := 2) (by decide) rfl (reach_of_exec .init hexec) rfl

end BitzServer
