import BitzServer.Server.Process

/-!
# The pool between the calls

`Manager::spawn` and `manage_workers` with each call of `spawn_worker` in one step. Between any two steps `reap_worker` may be called:
in `spawn` for the workers it has forked, later for any process.
-/

namespace BitzServer

/-- Where the manager is. -/
inductive PoolPc where
  /-- in `spawn`, at the test of the loop -/
  | spawning (i : Nat)
  /-- outside of `spawn` and `manage_workers` -/
  | outside
  /-- in `manage_workers`, at the test of the outer loop -/
  | managing
  /-- in `manage_workers`, at the test of the inner loop -/
  | scanning (i : Nat)
  /-- in `manage_workers`, a slot without a worker is found -/
  | missing (i : Nat)
  /-- the process is gone -/
  | exited
  deriving DecidableEq

/-- `spawn` has returned. -/
def PoolPc.spawned : PoolPc → Bool
  | spawning _ | exited => false
  | outside | managing | scanning _ | missing _ => true

/-- The manager and the workers it has not reaped. -/
structure ManagedPool where
  pc : PoolPc
  manager : Manager
  children : List Int
  deriving DecidableEq

/-- What can happen next. -/
inductive PoolAction where
  /-- the next test -/
  | run
  /-- `spawn_worker`, with the process id that `fork` returns or its failure -/
  | spawnWorker (forked : Option Int)
  /-- `reap_worker` -/
  | reapWorker (pid : Int)
  deriving DecidableEq

namespace ManagedPool

/-- In `spawn`, the pool is there with what the memory held. -/
def new (maxWorkers : Nat) (memory : List WorkerPool) : ManagedPool :=
  { pc := .spawning 0, manager := (Manager.new.setMaxWorkers maxWorkers).allocate memory, children := [] }

/-- The next test. -/
def runStep (s : ManagedPool) : Option ManagedPool :=
  match s.pc with
  | .spawning i => if i < s.manager.maxWorkers then none else some { s with pc := .outside }
  | .outside => some { s with pc := if s.manager.worker then .outside else .managing }
  | .managing => some { s with pc := if s.manager.workersCount ≠ s.manager.maxWorkers then .scanning 0 else .outside }
  | .scanning i => some { s with pc :=
      if i < s.manager.maxWorkers then if s.manager.pids[i]? = some 0 then .missing i else .scanning (i + 1)
      else .managing }
  | .missing _ | .exited => none

/-- `spawn_worker` in the manager: it fills the slot, or throws. -/
def spawnWorker (s : ManagedPool) (i : Nat) (next failed : PoolPc) : Option Int → Option ManagedPool
  | some pid =>
    if 0 < pid ∧ pid ∉ s.children then
      some { pc := next, manager := s.manager.countWorker.storeWorker i pid, children := pid :: s.children }
    else none
  | none => some { s with pc := failed }

/-- `reap_worker` -/
def reapWorker (s : ManagedPool) (pid : Int) : ManagedPool :=
  match s.manager.reapWorker pid with
  | .ok manager => { s with manager := manager, children := s.children.erase pid }
  | .error _ => { s with pc := .exited }

def step (s : ManagedPool) : PoolAction → Option ManagedPool
  | .run => s.runStep
  | .spawnWorker forked =>
    match s.pc with
    | .spawning i => if i < s.manager.maxWorkers then s.spawnWorker i (.spawning (i + 1)) .exited forked else none
    | .missing i => s.spawnWorker i (.scanning (i + 1)) (.scanning (i + 1)) forked
    | _ => none
  | .reapWorker pid =>
    if s.pc ≠ .exited ∧ 0 < pid ∧ (s.pc.spawned = true ∨ pid ∈ s.children) then some (s.reapWorker pid) else none

/-! ## What a step can do -/

/-- The steps, one by one. -/
inductive StepCases (s : ManagedPool) : PoolAction → ManagedPool → Prop
  | spawned {i : Nat} (hpc : s.pc = .spawning i) (hi : ¬i < s.manager.maxWorkers) : StepCases s .run { s with pc := .outside }
  | stay (hpc : s.pc = .outside) : StepCases s .run { s with pc := .outside }
  | call (hpc : s.pc = .outside) : StepCases s .run { s with pc := .managing }
  | incomplete (hpc : s.pc = .managing) (hcount : s.manager.workersCount ≠ s.manager.maxWorkers) :
      StepCases s .run { s with pc := .scanning 0 }
  | complete (hpc : s.pc = .managing) (hcount : s.manager.workersCount = s.manager.maxWorkers) :
      StepCases s .run { s with pc := .outside }
  | found {i : Nat} (hpc : s.pc = .scanning i) (hi : i < s.manager.maxWorkers) (hpid : s.manager.pids[i]? = some 0) :
      StepCases s .run { s with pc := .missing i }
  | skip {i : Nat} (hpc : s.pc = .scanning i) : StepCases s .run { s with pc := .scanning (i + 1) }
  | scanned {i : Nat} (hpc : s.pc = .scanning i) : StepCases s .run { s with pc := .managing }
  | spawn {i : Nat} {pid : Int} (hpc : s.pc = .spawning i) (hi : i < s.manager.maxWorkers) (hpos : 0 < pid)
      (hfresh : pid ∉ s.children) : StepCases s (.spawnWorker (some pid))
        { pc := .spawning (i + 1), manager := s.manager.countWorker.storeWorker i pid, children := pid :: s.children }
  | spawnFailed {i : Nat} (hpc : s.pc = .spawning i) : StepCases s (.spawnWorker none) { s with pc := .exited }
  | fill {i : Nat} {pid : Int} (hpc : s.pc = .missing i) (hpos : 0 < pid) (hfresh : pid ∉ s.children) :
      StepCases s (.spawnWorker (some pid))
        { pc := .scanning (i + 1), manager := s.manager.countWorker.storeWorker i pid, children := pid :: s.children }
  | fillFailed {i : Nat} (hpc : s.pc = .missing i) : StepCases s (.spawnWorker none) { s with pc := .scanning (i + 1) }
  | reap {pid : Int} (hpc : s.pc ≠ .exited) (hpos : 0 < pid) (hmem : s.pc.spawned = true ∨ pid ∈ s.children) :
      StepCases s (.reapWorker pid) (s.reapWorker pid)

/-- The next test is one of them. -/
theorem runStep_cases {s s' : ManagedPool} (h : s.runStep = some s') : StepCases s .run s' := by
  unfold runStep at h
  cases hpc : s.pc with
  | spawning i =>
    simp only [hpc] at h
    obtain ⟨hi, heq⟩ := Option.ite_none_left_eq_some.mp h
    exact Option.some.inj heq ▸ .spawned hpc hi
  | outside =>
    simp only [hpc, Option.some.injEq] at h
    by_cases hworker : s.manager.worker = true
    · rw [if_pos hworker] at h
      exact h ▸ .stay hpc
    · rw [if_neg hworker] at h
      exact h ▸ .call hpc
  | managing =>
    simp only [hpc, Option.some.injEq] at h
    by_cases hcount : s.manager.workersCount = s.manager.maxWorkers
    · rw [if_neg (not_not.mpr hcount)] at h
      exact h ▸ .complete hpc hcount
    · rw [if_pos hcount] at h
      exact h ▸ .incomplete hpc hcount
  | scanning i =>
    simp only [hpc, Option.some.injEq] at h
    by_cases hi : i < s.manager.maxWorkers
    · rw [if_pos hi] at h
      by_cases hpid : s.manager.pids[i]? = some 0
      · rw [if_pos hpid] at h
        exact h ▸ .found hpc hi hpid
      · rw [if_neg hpid] at h
        exact h ▸ .skip hpc
    · rw [if_neg hi] at h
      exact h ▸ .scanned hpc
  | missing i | exited => simp [hpc] at h

/-- A step is one of them. -/
theorem step_cases {s s' : ManagedPool} {a : PoolAction} (h : s.step a = some s') : StepCases s a s' := by
  cases a with
  | run => exact runStep_cases h
  | spawnWorker forked =>
    unfold step at h
    cases hpc : s.pc with
    | spawning i =>
      simp only [hpc] at h
      obtain ⟨hi, h⟩ := Option.ite_none_right_eq_some.mp h
      rcases forked with _ | pid
      · exact Option.some.inj h ▸ .spawnFailed hpc
      · obtain ⟨⟨hpos, hfresh⟩, heq⟩ := Option.ite_none_right_eq_some.mp h
        exact Option.some.inj heq ▸ .spawn hpc hi hpos hfresh
    | missing i =>
      simp only [hpc] at h
      rcases forked with _ | pid
      · exact Option.some.inj h ▸ .fillFailed hpc
      · obtain ⟨⟨hpos, hfresh⟩, heq⟩ := Option.ite_none_right_eq_some.mp h
        exact Option.some.inj heq ▸ .fill hpc hpos hfresh
    | outside | managing | scanning i | exited => simp [hpc] at h
  | reapWorker pid =>
    obtain ⟨⟨hpc, hpos, hmem⟩, heq⟩ := Option.ite_none_right_eq_some.mp h
    exact Option.some.inj heq ▸ .reap hpc hpos hmem

end ManagedPool

end BitzServer
