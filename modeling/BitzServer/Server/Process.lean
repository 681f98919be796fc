import BitzServer.Lib.Runs
import BitzServer.Server.Manager

/-!
# The manager process

`server::start` and `server::run` with `Manager::spawn`, `spawn_worker` and `manage_workers` as a state machine. Between any two
statements a child may exit, and a signal that is not blocked may be handled. The statements between two states of the machine write
nothing that a signal handler reads.
-/

namespace BitzServer

/-- The callers of `spawn_worker`. -/
inductive Caller where
  | spawn
  | manage
  deriving DecidableEq

/-- Where the manager is. -/
inductive Pc where
  /-- in `start`, before `spawn` -/
  | starting
  /-- in `spawn`, `max_workers` is set and the pool is not there yet -/
  | sized
  /-- in `spawn`, at the test of the loop -/
  | spawning (i : Nat)
  /-- in `spawn_worker`, before `fork` -/
  | forking (caller : Caller) (i : Nat)
  /-- in `spawn_worker`, `fork` has returned -/
  | forked (caller : Caller) (i : Nat) (pid : Int)
  /-- in `spawn_worker`, the worker is counted and its process id is not stored yet -/
  | counted (caller : Caller) (i : Nat) (pid : Int)
  /-- `spawn` has returned -/
  | started
  /-- in `run`, at the test of the loop, with the termination signals blocked -/
  | testing
  /-- in `sigsuspend` -/
  | suspended
  /-- `sigsuspend` has returned -/
  | woken
  /-- in `manage_workers`, at the test of the outer loop -/
  | managing
  /-- in `manage_workers`, at the test of the inner loop -/
  | scanning (i : Nat)
  /-- `manage_workers` has returned -/
  | managed
  /-- the process is gone -/
  | exited
  deriving DecidableEq

/-- Where the manager goes on after `spawn_worker`. -/
def Caller.next (caller : Caller) (i : Nat) : Pc :=
  match caller with
  | spawn => .spawning (i + 1)
  | manage => .scanning (i + 1)

/-- Where the manager goes on after the exception of `spawn_worker`: `start` exits, `manage_workers` catches it. -/
def Caller.failed (caller : Caller) (i : Nat) : Pc :=
  match caller with
  | spawn => .exited
  | manage => .scanning (i + 1)

/-- The termination signals are blocked, or there is nothing left to terminate. -/
def Pc.blocksTermination : Pc → Bool
  | testing | woken | exited => true
  | _ => false

/-- The manager process and its children. -/
structure ManagerProcess where
  pc : Pc
  manager : Manager
  /-- the children that run -/
  live : List Int
  /-- the children that have exited and have not been reaped -/
  zombies : List Int
  /-- `SIGCHLD` is pending -/
  chldPending : Bool
  deriving DecidableEq

namespace ManagerProcess

/-- The process after the constructor of the manager. -/
def new : ManagerProcess := { pc := .starting, manager := Manager.new, live := [], zombies := [], chldPending := false }

/-- The children that have not been reaped. -/
def children (s : ManagerProcess) : List Int := s.live ++ s.zombies

end ManagerProcess

/-- What can happen next. -/
inductive Action where
  /-- the next statement of the manager, other than the two below -/
  | run
  /-- the allocation of the pool, with what the memory holds -/
  | alloc (memory : List WorkerPool)
  /-- the return of `fork` with the process id of a child, or its failure -/
  | fork (result : Option Int)
  /-- a child exits -/
  | exit (pid : Int)
  /-- `SIGCHLD` becomes pending although no child has exited -/
  | notify
  /-- `sigchld_handler`: `waitpid` gives the children that have exited in some order -/
  | sigchld (order : List Int)
  /-- `termination_handler`, at the end of which the process ends -/
  | terminate
  deriving DecidableEq

namespace ManagerProcess

/-- The next statement. -/
def runStep (maxWorkers : Nat) (s : ManagerProcess) : Option ManagerProcess :=
  match s.pc with
  | .starting => some { s with pc := .sized, manager := s.manager.setMaxWorkers maxWorkers }
  | .spawning i => some { s with pc := if i < s.manager.maxWorkers then .forking .spawn i else .started }
  | .forked caller i pid => some { s with pc := .counted caller i pid, manager := s.manager.countWorker }
  | .counted caller i pid => some { s with pc := caller.next i, manager := s.manager.storeWorker i pid }
  | .started => some { s with pc := .testing }
  | .testing => some { s with pc := .suspended }
  | .woken => some { s with pc := .managing }
  | .managing => some { s with pc := if s.manager.workersCount ≠ s.manager.maxWorkers then .scanning 0 else .managed }
  | .scanning i => some { s with pc :=
      if i < s.manager.maxWorkers then if s.manager.pids[i]? = some 0 then .forking .manage i else .scanning (i + 1)
      else .managing }
  | .managed => some { s with pc := .testing }
  | .sized | .forking _ _ | .suspended | .exited => none

/-- `sigchld_handler` has reaped the children in the order of `waitpid`; it ends `sigsuspend`. -/
def sigchldHandler (s : ManagerProcess) (order : List Int) : ManagerProcess :=
  match order.foldlM Manager.reapWorker s.manager with
  | .ok manager => { s with pc := if s.pc = .suspended then .woken else s.pc, manager := manager, zombies := [], chldPending := false }
  | .error _ => { s with pc := .exited }

def step (maxWorkers : Nat) (s : ManagerProcess) : Action → Option ManagerProcess
  | .run => s.runStep maxWorkers
  | .alloc memory =>
    if s.pc = .sized ∧ memory.length = s.manager.maxWorkers then some { s with pc := .spawning 0, manager := s.manager.allocate memory }
    else none
  | .fork result =>
    match s.pc, result with
    | .forking caller i, some pid =>
      if 0 < pid ∧ pid ∉ s.children then some { s with pc := .forked caller i pid, live := pid :: s.live } else none
    | .forking caller i, none => some { s with pc := caller.failed i }
    | _, _ => none
  | .exit pid =>
    if pid ∈ s.live then some { s with live := s.live.erase pid, zombies := pid :: s.zombies, chldPending := true } else none
  | .notify => some { s with chldPending := true }
  | .sigchld order =>
    if s.pc ≠ .exited ∧ s.chldPending = true ∧ order.Perm s.zombies then some (s.sigchldHandler order) else none
  | .terminate => if s.pc.blocksTermination then none else some { s with pc := .exited }

/-! ## What a step can do -/

/-- The steps, one by one. -/
inductive StepCases (n : Nat) (s : ManagerProcess) : Action → ManagerProcess → Prop
  | size (hpc : s.pc = .starting) : StepCases n s .run { s with pc := .sized, manager := s.manager.setMaxWorkers n }
  | alloc {memory : List WorkerPool} (hpc : s.pc = .sized) (hlen : memory.length = s.manager.maxWorkers) :
      StepCases n s (.alloc memory) { s with pc := .spawning 0, manager := s.manager.allocate memory }
  | enter {i : Nat} (hpc : s.pc = .spawning i) (hi : i < s.manager.maxWorkers) : StepCases n s .run { s with pc := .forking .spawn i }
  | spawned {i : Nat} (hpc : s.pc = .spawning i) (hi : ¬i < s.manager.maxWorkers) : StepCases n s .run { s with pc := .started }
  | fork {caller : Caller} {i : Nat} {pid : Int} (hpc : s.pc = .forking caller i) (hpos : 0 < pid) (hfresh : pid ∉ s.children) :
      StepCases n s (.fork (some pid)) { s with pc := .forked caller i pid, live := pid :: s.live }
  | forkFailed {caller : Caller} {i : Nat} (hpc : s.pc = .forking caller i) :
      StepCases n s (.fork none) { s with pc := caller.failed i }
  | count {caller : Caller} {i : Nat} {pid : Int} (hpc : s.pc = .forked caller i pid) :
      StepCases n s .run { s with pc := .counted caller i pid, manager := s.manager.countWorker }
  | store {caller : Caller} {i : Nat} {pid : Int} (hpc : s.pc = .counted caller i pid) :
      StepCases n s .run { s with pc := caller.next i, manager := s.manager.storeWorker i pid }
  | block (hpc : s.pc = .started ∨ s.pc = .managed) : StepCases n s .run { s with pc := .testing }
  | suspend (hpc : s.pc = .testing) : StepCases n s .run { s with pc := .suspended }
  | unblock (hpc : s.pc = .woken) : StepCases n s .run { s with pc := .managing }
  | missing (hpc : s.pc = .managing) (hcount : s.manager.workersCount ≠ s.manager.maxWorkers) :
      StepCases n s .run { s with pc := .scanning 0 }
  | complete (hpc : s.pc = .managing) (hcount : s.manager.workersCount = s.manager.maxWorkers) :
      StepCases n s .run { s with pc := .managed }
  | found {i : Nat} (hpc : s.pc = .scanning i) (hi : i < s.manager.maxWorkers) (hpid : s.manager.pids[i]? = some 0) :
      StepCases n s .run { s with pc := .forking .manage i }
  | skip {i : Nat} (hpc : s.pc = .scanning i) (hi : i < s.manager.maxWorkers) (hpid : s.manager.pids[i]? ≠ some 0) :
      StepCases n s .run { s with pc := .scanning (i + 1) }
  | scanned {i : Nat} (hpc : s.pc = .scanning i) (hi : ¬i < s.manager.maxWorkers) : StepCases n s .run { s with pc := .managing }
  | exit {pid : Int} (hlive : pid ∈ s.live) :
      StepCases n s (.exit pid) { s with live := s.live.erase pid, zombies := pid :: s.zombies, chldPending := true }
  | notify : StepCases n s .notify { s with chldPending := true }
  | sigchld {order : List Int} (hpc : s.pc ≠ .exited) (hpending : s.chldPending = true) (horder : order.Perm s.zombies) :
      StepCases n s (.sigchld order) (s.sigchldHandler order)
  | terminate (hpc : s.pc.blocksTermination = false) : StepCases n s .terminate { s with pc := .exited }

/-- The next statement is one of them. -/
theorem runStep_cases {n : Nat} {s s' : ManagerProcess} (h : s.runStep n = some s') : StepCases n s .run s' := by
  unfold runStep at h
  cases hpc : s.pc with
  | starting =>
    simp only [hpc, Option.some.injEq] at h
    exact h ▸ .size hpc
  | spawning i =>
    simp only [hpc, Option.some.injEq] at h
    by_cases hi : i < s.manager.maxWorkers
    · rw [if_pos hi] at h
      exact h ▸ .enter hpc hi
    · rw [if_neg hi] at h
      exact h ▸ .spawned hpc hi
  | forked caller i pid =>
    simp only [hpc, Option.some.injEq] at h
    exact h ▸ .count hpc
  | counted caller i pid =>
    simp only [hpc, Option.some.injEq] at h
    exact h ▸ .store hpc
  | started =>
    simp only [hpc, Option.some.injEq] at h
    exact h ▸ .block (.inl hpc)
  | testing =>
    simp only [hpc, Option.some.injEq] at h
    exact h ▸ .suspend hpc
  | woken =>
    simp only [hpc, Option.some.injEq] at h
    exact h ▸ .unblock hpc
  | managing =>
    simp only [hpc, Option.some.injEq] at h
    by_cases hcount : s.manager.workersCount = s.manager.maxWorkers
    · rw [if_neg (not_not.mpr hcount)] at h
      exact h ▸ .complete hpc hcount
    · rw [if_pos hcount] at h
      exact h ▸ .missing hpc hcount
  | scanning i =>
    simp only [hpc, Option.some.injEq] at h
    by_cases hi : i < s.manager.maxWorkers
    · rw [if_pos hi] at h
      by_cases hpid : s.manager.pids[i]? = some 0
      · rw [if_pos hpid] at h
        exact h ▸ .found hpc hi hpid
      · rw [if_neg hpid] at h
        exact h ▸ .skip hpc hi hpid
    · rw [if_neg hi] at h
      exact h ▸ .scanned hpc hi
  | managed =>
    simp only [hpc, Option.some.injEq] at h
    exact h ▸ .block (.inr hpc)
  | sized | forking caller i | suspended | exited => simp [hpc] at h

/-- A step is one of them. -/
theorem step_cases {n : Nat} {s s' : ManagerProcess} {a : Action} (h : s.step n a = some s') : StepCases n s a s' := by
  cases a with
  | run => exact runStep_cases h
  | alloc memory =>
    obtain ⟨⟨hpc, hlen⟩, heq⟩ := Option.ite_none_right_eq_some.mp h
    exact Option.some.inj heq ▸ .alloc hpc hlen
  | fork result =>
    unfold step at h
    cases hpc : s.pc with
    | forking caller i =>
      rcases result with _ | pid
      · simp only [hpc, Option.some.injEq] at h
        exact h ▸ .forkFailed hpc
      · simp only [hpc] at h
        obtain ⟨⟨hpos, hfresh⟩, heq⟩ := Option.ite_none_right_eq_some.mp h
        exact Option.some.inj heq ▸ .fork hpc hpos hfresh
    | _ => simp [hpc] at h
  | exit pid =>
    obtain ⟨hlive, heq⟩ := Option.ite_none_right_eq_some.mp h
    exact Option.some.inj heq ▸ .exit hlive
  | notify => exact Option.some.inj h ▸ .notify
  | sigchld order =>
    obtain ⟨⟨hpc, hpending, horder⟩, heq⟩ := Option.ite_none_right_eq_some.mp h
    exact Option.some.inj heq ▸ .sigchld hpc hpending horder
  | terminate =>
    obtain ⟨hpc, heq⟩ := Option.ite_none_left_eq_some.mp h
    exact Option.some.inj heq ▸ .terminate (by simpa using hpc)

/-! ## The shape of the state -/

/-- The pool is there. -/
structure Allocated (n : Nat) (m : Manager) : Prop where
  maxWorkers : m.maxWorkers = n
  workerPool : m.workerPool.isSome = true
  length : m.pids.length = n

/-- The pool and the indices, as far as the manager has come. -/
abbrev ShapeAt (n : Nat) (m : Manager) (children : List Int) : Pc → Prop
  | .starting => m = Manager.new ∧ children = []
  | .sized => m = Manager.new.setMaxWorkers n ∧ children = []
  | .spawning i | .scanning i => Allocated n m ∧ i ≤ n
  | .forking .manage i | .forked .manage i _ | .counted .manage i _ => Allocated n m ∧ i < n ∧ m.pids[i]? = some 0
  | .forking .spawn i | .forked .spawn i _ | .counted .spawn i _ => Allocated n m ∧ i < n
  | .started | .testing | .suspended | .woken | .managing | .managed => Allocated n m
  | .exited => True

/-- What holds in all states of the process. -/
structure WellFormed (n : Nat) (s : ManagerProcess) : Prop where
  worker : s.manager.worker = false
  pos : ∀ pid ∈ s.children, 0 < pid
  nodup : s.children.Nodup
  shape : ShapeAt n s.manager s.children s.pc

/-- Reaping keeps the shape: slots are only cleared. -/
theorem shapeAt_alike {n : Nat} {m m' : Manager} {order children : List Int} (hlike : m.Alike m')
    (hpids : m'.pids = Slots.clear 0 m.pids order) {pc : Pc} (hstarting : pc ≠ .starting) (hsized : pc ≠ .sized)
    {children' : List Int} (h : ShapeAt n m children pc) : ShapeAt n m' children' pc := by
  have halloc : Allocated n m → Allocated n m' := fun ha =>
    ⟨hlike.maxWorkers.trans ha.maxWorkers, hlike.workerPool.trans ha.workerPool,
      by rw [hpids, Slots.length_clear, ha.length]⟩
  have hempty : ∀ i : Nat, m.pids[i]? = some 0 → m'.pids[i]? = some 0 := by
    intro i hi
    rw [hpids]
    exact Slots.getElem?_clear order hi
  cases pc with
  | starting => exact absurd rfl hstarting
  | sized => exact absurd rfl hsized
  | spawning i | scanning i => exact ⟨halloc h.1, h.2⟩
  | forking caller i | forked caller i pid | counted caller i pid =>
    cases caller with
    | spawn => exact ⟨halloc h.1, h.2⟩
    | manage => exact ⟨halloc h.1, h.2.1, hempty i h.2.2⟩
  | started | testing | suspended | woken | managing | managed => exact halloc h
  | exited => trivial

/-- Of the children the shape says only whether there are any. -/
theorem ShapeAt.of_children {n : Nat} {m : Manager} {children children' : List Int} {pc : Pc} (h : ShapeAt n m children pc)
    (himp : children = [] → children' = []) : ShapeAt n m children' pc := by
  cases pc with
  | starting | sized => exact ⟨h.1, himp h.2⟩
  | forking caller i | forked caller i pid | counted caller i pid => cases caller <;> exact h
  | _ => exact h

/-- The pool is there once a child is. -/
theorem ShapeAt.walkable {n : Nat} {m : Manager} {children : List Int} {pc : Pc} (h : ShapeAt n m children pc) (hpc : pc ≠ .exited) :
    m.Walkable ∨ children = [] := by
  cases pc with
  | starting | sized => exact .inr h.2
  | spawning i | scanning i => exact .inl (.inl h.1.workerPool)
  | forking caller i | forked caller i pid | counted caller i pid => cases caller <;> exact .inl (.inl h.1.workerPool)
  | started | testing | suspended | woken | managing | managed => exact .inl (.inl h.workerPool)
  | exited => exact absurd rfl hpc

/-- The handler reaps all children that have exited: they are cleared in the pool. -/
theorem sigchldHandler_spec {n : Nat} {s : ManagerProcess} (hwf : WellFormed n s) (hpc : s.pc ≠ .exited) {order : List Int}
    (horder : order.Perm s.zombies) : ∃ m, order.foldlM Manager.reapWorker s.manager = .ok m ∧
      s.sigchldHandler order =
        { s with pc := if s.pc = .suspended then .woken else s.pc, manager := m, zombies := [], chldPending := false } ∧
      s.manager.Alike m ∧ m.pids = Slots.clear 0 s.manager.pids order := by
  have hrun : ∃ m, order.foldlM Manager.reapWorker s.manager = .ok m ∧ s.manager.Alike m ∧
      m.pids = Slots.clear 0 s.manager.pids order := by
    rcases hwf.shape.walkable hpc with hwalk | hnone
    · exact Manager.reapWorkers_spec order hwf.worker hwalk
    · have hz : s.zombies = [] := (List.append_eq_nil_iff.mp hnone).2
      obtain rfl : order = [] := (hz ▸ horder).eq_nil
      exact ⟨s.manager, rfl, ⟨rfl, rfl, rfl⟩, rfl⟩
  obtain ⟨m, hrun, hrest⟩ := hrun
  refine ⟨m, hrun, ?_, hrest⟩
  unfold sigchldHandler
  rw [hrun]

/-- The handler keeps the shape. -/
theorem shape_handler {n : Nat} {m m' : Manager} {order live zombies : List Int} {pc : Pc} (hlike : m.Alike m')
    (hpids : m'.pids = Slots.clear 0 m.pids order) (h : ShapeAt n m (live ++ zombies) pc)
    (hrun : order.foldlM Manager.reapWorker m = .ok m') (horder : order.Perm zombies) : ShapeAt n m' (live ++ []) pc := by
  have hearly : live ++ zombies = [] → m' = m ∧ live ++ [] = [] := by
    intro hnil
    obtain ⟨hlive, hz⟩ := List.append_eq_nil_iff.mp hnil
    obtain rfl : order = [] := (hz ▸ horder).eq_nil
    exact ⟨(Except.ok.inj hrun).symm, by rw [hlive]; rfl⟩
  by_cases hstarting : pc = .starting
  · subst hstarting
    obtain ⟨rfl, hnil⟩ := hearly h.2
    exact ⟨h.1, hnil⟩
  by_cases hsized : pc = .sized
  · subst hsized
    obtain ⟨rfl, hnil⟩ := hearly h.2
    exact ⟨h.1, hnil⟩
  exact shapeAt_alike hlike hpids hstarting hsized h

theorem wellFormed_new (n : Nat) : WellFormed n new :=
  { worker := rfl, pos := nofun, nodup := List.nodup_nil, shape := ⟨rfl, rfl⟩ }

/-- Every step keeps the shape of the state. -/
theorem WellFormed.step {n : Nat} {s s' : ManagerProcess} {a : Action} (hwf : WellFormed n s) (h : s.step n a = some s') :
    WellFormed n s' := by
  have ⟨hworker, hpos, hnodup, hshape⟩ := hwf
  cases step_cases h with
  | size hpc =>
    rw [hpc] at hshape
    exact ⟨hworker, hpos, hnodup, congrArg (Manager.setMaxWorkers · n) hshape.1, hshape.2⟩
  | alloc hpc hlen =>
    rw [hpc] at hshape
    have hmax : s.manager.maxWorkers = n := by rw [hshape.1]; rfl
    exact ⟨hworker, hpos, hnodup, ⟨hmax, rfl, by rw [Manager.pids_allocate, List.length_map, hlen, hmax]⟩, Nat.zero_le n⟩
  | enter hpc hi =>
    rw [hpc] at hshape
    exact ⟨hworker, hpos, hnodup, hshape.1, hshape.1.maxWorkers ▸ hi⟩
  | spawned hpc hi =>
    rw [hpc] at hshape
    exact ⟨hworker, hpos, hnodup, hshape.1⟩
  | @fork caller i pid hpc hpos' hfresh =>
    refine ⟨hworker, ?_, List.nodup_cons.mpr ⟨hfresh, hnodup⟩, ?_⟩
    · intro p hp
      rcases List.mem_cons.mp hp with rfl | hp
      · exact hpos'
      · exact hpos p hp
    · rw [hpc] at hshape
      cases caller <;> exact hshape
  | @forkFailed caller i hpc =>
    rw [hpc] at hshape
    cases caller with
    | spawn => exact ⟨hworker, hpos, hnodup, trivial⟩
    | manage => exact ⟨hworker, hpos, hnodup, hshape.1, hshape.2.1⟩
  | @count caller i pid hpc =>
    rw [hpc] at hshape
    refine ⟨hworker, hpos, hnodup, ?_⟩
    cases caller with
    | spawn => exact ⟨⟨hshape.1.maxWorkers, hshape.1.workerPool, hshape.1.length⟩, hshape.2⟩
    | manage => exact ⟨⟨hshape.1.maxWorkers, hshape.1.workerPool, hshape.1.length⟩, hshape.2⟩
  | @store caller i pid hpc =>
    rw [hpc] at hshape
    have halloc : ∀ m, Allocated n m → Allocated n (m.storeWorker i pid) := fun m ha =>
      ⟨ha.maxWorkers, by rw [← ha.workerPool]; exact Option.isSome_map .., by rw [Manager.pids_storeWorker, List.length_set, ha.length]⟩
    cases caller with
    | spawn => exact ⟨rfl, hpos, hnodup, halloc _ hshape.1, hshape.2⟩
    | manage => exact ⟨rfl, hpos, hnodup, halloc _ hshape.1, hshape.2.1⟩
  | block hpc =>
    rcases hpc with hpc | hpc <;> rw [hpc] at hshape <;> exact ⟨hworker, hpos, hnodup, hshape⟩
  | suspend hpc | unblock hpc | complete hpc hcount =>
    rw [hpc] at hshape
    exact ⟨hworker, hpos, hnodup, hshape⟩
  | missing hpc hcount =>
    rw [hpc] at hshape
    exact ⟨hworker, hpos, hnodup, hshape, Nat.zero_le n⟩
  | found hpc hi hpid =>
    rw [hpc] at hshape
    exact ⟨hworker, hpos, hnodup, hshape.1, hshape.1.maxWorkers ▸ hi, hpid⟩
  | skip hpc hi =>
    rw [hpc] at hshape
    exact ⟨hworker, hpos, hnodup, hshape.1, hshape.1.maxWorkers ▸ hi⟩
  | scanned hpc hi =>
    rw [hpc] at hshape
    exact ⟨hworker, hpos, hnodup, hshape.1⟩
  | @exit pid hlive =>
    have hperm : (s.live.erase pid ++ pid :: s.zombies).Perm s.children :=
      List.perm_middle.trans ((List.perm_cons_erase hlive).symm.append_right s.zombies)
    refine ⟨hworker, fun p hp => hpos p (hperm.mem_iff.mp hp), hperm.nodup_iff.mpr hnodup, hshape.of_children fun hnil => ?_⟩
    exact absurd hnil (List.ne_nil_of_mem (List.mem_append_left _ hlive))
  | notify => exact ⟨hworker, hpos, hnodup, hshape⟩
  | @sigchld order hpc _ horder =>
    obtain ⟨m, hrun, heq, hlike, hpids⟩ := sigchldHandler_spec hwf hpc horder
    have hlive : ∀ p ∈ s.live ++ [], p ∈ s.children := fun p hp => List.mem_append_left _ (by simpa using hp)
    rw [heq]
    refine ⟨hlike.worker.trans hworker, fun p hp => hpos p (hlive p hp), ?_, ?_⟩
    · show (s.live ++ []).Nodup
      rw [List.append_nil]
      exact hnodup.of_append_left
    · show ShapeAt n m (s.live ++ []) (if s.pc = .suspended then .woken else s.pc)
      by_cases hsusp : s.pc = .suspended
      · rw [hsusp] at hshape
        rw [if_pos hsusp]
        have hwoken : ShapeAt n s.manager s.children .woken := hshape
        exact shapeAt_alike hlike hpids (by simp) (by simp) hwoken
      · rw [if_neg hsusp]
        exact shape_handler hlike hpids hshape hrun horder
  | terminate hpc => exact ⟨hworker, hpos, hnodup, trivial⟩

end ManagerProcess

end BitzServer
