import BitzServer.Theorems.PoolAccounting
import BitzServer.Theorems.WorkerPool

/-!
# The calls of `spawn_worker` in one step

The pool between the calls is what one sees of the manager process where the handler of `SIGCHLD` does not run inside of `spawn_worker`:
every such run of the process is a run of the pool, in which each call of `spawn_worker` is one step. What holds of the pool then holds of
the process.
-/

namespace BitzServer

open Runs

/-- Where the pool is when the manager is there, none before the pool is allocated and after the end. -/
def Pc.pool : Pc → Option PoolPc
  | starting | sized | exited => none
  | spawning i | forking .spawn i | forked .spawn i _ | counted .spawn i _ => some (.spawning i)
  | forking .manage i | forked .manage i _ | counted .manage i _ => some (.missing i)
  | started | testing | suspended | woken | managed => some .outside
  | managing => some .managing
  | scanning i => some (.scanning i)

/-- The manager with the worker counted whose process id is not stored yet. -/
def Pc.counts : Pc → Manager → Manager
  | counted _ _ _, m => m.countWorker
  | _, m => m

namespace ManagerProcess

/-- No handler reaps inside of `spawn_worker` after `fork`. -/
def ReapsBetweenCalls (s : ManagerProcess) : Action → Prop
  | .sigchld _ => s.pc.unstored = []
  | _ => True

/-- The process is where the pool is, or inside of the next call of `spawn_worker`. -/
structure Refines (s : ManagerProcess) (p : ManagedPool) : Prop where
  pc : s.pc.pool = some p.pc
  manager : s.manager = s.pc.counts p.manager
  children : (p.children ++ s.pc.unstored).Perm s.children

end ManagerProcess

namespace PoolRefinementAux

open ManagerProcess

/-- Where every worker is stored, every worker that is counted is. -/
theorem counts_of_unstored {pc : Pc} (h : pc.unstored = []) (m : Manager) : pc.counts m = m := by
  cases pc with
  | counted caller i pid => cases h
  | _ => rfl

/-- `waitpid` gives children of the pool, which reaps one after the other. -/
theorem reach_reapWorkers {p₀ : ManagedPool} : ∀ (order : List Int) {p : ManagedPool} {m : Manager}, p.pc ≠ .exited → order.Nodup →
    (∀ pid ∈ order, 0 < pid ∧ pid ∈ p.children) → order.foldlM Manager.reapWorker p.manager = .ok m →
    Reach ManagedPool.step (fun _ _ => True) p₀ p →
    Reach ManagedPool.step (fun _ _ => True) p₀ { p with manager := m, children := p.children.diff order }
  | [], p, m, _, _, _, hrun, hreach => by
    obtain rfl := Except.ok.inj hrun
    exact hreach
  | pid :: order, p, m, hpc, hnd, hmem, hrun, hreach => by
    obtain ⟨hnot, hnd⟩ := List.nodup_cons.mp hnd
    obtain ⟨hpos, hchild⟩ := hmem pid List.mem_cons_self
    rw [List.foldlM_cons] at hrun
    cases hreap : p.manager.reapWorker pid with
    | error fault =>
      rw [hreap] at hrun
      cases hrun
    | ok m₁ =>
      rw [hreap] at hrun
      have hstep : p.step (.reapWorker pid) = some { p with manager := m₁, children := p.children.erase pid } := by
        simp only [ManagedPool.step, ManagedPool.reapWorker, hreap]
        exact if_pos ⟨hpc, hpos, .inr hchild⟩
      rw [List.diff_cons]
      refine reach_reapWorkers order (p := { p with manager := m₁, children := p.children.erase pid }) hpc hnd ?_ hrun
        (.step hreach trivial hstep)
      intro other hother
      obtain ⟨hpos', hchild'⟩ := hmem other (List.mem_cons_of_mem _ hother)
      have hne : other ≠ pid := fun heq => hnot (heq ▸ hother)
      exact ⟨hpos', (List.mem_erase_of_ne hne).mpr hchild'⟩

/-- The handler runs where no call of `spawn_worker` is under way. -/
theorem refines_sigchld {n : Nat} {s : ManagerProcess} {p₀ p : ManagedPool} (hwf : WellFormed n s) (href : s.Refines p)
    (hpc : s.pc ≠ .exited) {order : List Int} (horder : order.Perm s.zombies) (hcall : s.pc.unstored = [])
    (hreach : Reach ManagedPool.step (fun _ _ => True) p₀ p) :
    ∃ p', Reach ManagedPool.step (fun _ _ => True) p₀ p' ∧ (s.sigchldHandler order).Refines p' := by
  obtain ⟨m, hrun, heq, -, -⟩ := sigchldHandler_spec hwf hpc horder
  have hperm : p.children.Perm (s.live ++ s.zombies) := by
    have := href.children
    rwa [hcall, List.append_nil] at this
  have hmanager : s.manager = p.manager := href.manager.trans (counts_of_unstored hcall p.manager)
  have hexited : p.pc ≠ .exited := by
    intro hp
    have := href.pc
    rw [hp] at this
    cases hs : s.pc with
    | forking caller i | forked caller i pid | counted caller i pid => cases caller <;> simp [hs, Pc.pool] at this
    | _ => simp [hs, Pc.pool] at this
  have hmem : ∀ pid ∈ order, 0 < pid ∧ pid ∈ p.children := fun pid hpid => by
    have hzombie : pid ∈ s.children := List.mem_append_right _ (horder.mem_iff.mp hpid)
    exact ⟨hwf.pos pid hzombie, hperm.mem_iff.mpr hzombie⟩
  have hnd : order.Nodup := horder.nodup_iff.mpr hwf.nodup.of_append_right
  refine ⟨_, reach_reapWorkers order hexited hnd hmem (hmanager ▸ hrun) hreach, ?_⟩
  rw [heq]
  have hplace : (if s.pc = .suspended then Pc.woken else s.pc).pool = s.pc.pool ∧
      (if s.pc = .suspended then Pc.woken else s.pc).unstored = [] := by
    by_cases hsusp : s.pc = .suspended
    · rw [if_pos hsusp, hsusp]
      exact ⟨rfl, rfl⟩
    · rw [if_neg hsusp]
      exact ⟨rfl, hcall⟩
  refine ⟨hplace.1.trans href.pc, (counts_of_unstored hplace.2 m).symm, ?_⟩
  show (p.children.diff order ++ _).Perm (s.live ++ [])
  rw [hplace.2, List.append_nil, List.append_nil, List.perm_iff_count]
  intro pid
  rw [List.count_diff, hperm.count_eq, List.count_append, horder.count_eq]
  omega

/-- With the store of the process id the call of `spawn_worker` is over, and the pool makes it. -/
theorem refines_store {n : Nat} {s : ManagerProcess} {p₀ p : ManagedPool} (hwf : WellFormed n s) (href : s.Refines p) {caller : Caller}
    {i : Nat} {pid : Int} (hpc : s.pc = .counted caller i pid) (hreach : Reach ManagedPool.step (fun _ _ => True) p₀ p) :
    ∃ p', Reach ManagedPool.step (fun _ _ => True) p₀ p' ∧
      { s with pc := caller.next i, manager := s.manager.storeWorker i pid }.Refines p' := by
  obtain ⟨hpc', hmanager, hchildren⟩ := href
  have hshape := hwf.shape
  rw [hpc] at hpc' hmanager hchildren hshape
  have hmem : pid ∈ s.children := hchildren.mem_iff.mp (List.mem_append_right _ (List.mem_singleton_self pid))
  have hnd : (p.children ++ [pid]).Nodup := hchildren.nodup_iff.mpr hwf.nodup
  have hfresh : pid ∉ p.children := fun hin => List.disjoint_of_nodup_append hnd hin (List.mem_singleton_self pid)
  have hguard : 0 < pid ∧ pid ∉ p.children := ⟨hwf.pos pid hmem, hfresh⟩
  have hnext : (pid :: p.children).Perm s.children := (List.perm_append_singleton pid _).symm.trans hchildren
  have hstored : s.manager.storeWorker i pid = p.manager.countWorker.storeWorker i pid := congrArg (·.storeWorker i pid) hmanager
  cases caller with
  | spawn =>
    have hp := Option.some.inj hpc'
    have hi : i < p.manager.maxWorkers := by
      have hmax : s.manager.maxWorkers = p.manager.maxWorkers := (congrArg Manager.maxWorkers hmanager).trans rfl
      rw [← hmax, hshape.1.maxWorkers]
      exact hshape.2
    have hstep : p.step (.spawnWorker (some pid)) = some
        { pc := .spawning (i + 1), manager := p.manager.countWorker.storeWorker i pid, children := pid :: p.children } := by
      simp only [ManagedPool.step, ManagedPool.spawnWorker, ← hp, if_pos hi]
      exact if_pos hguard
    exact ⟨_, .step hreach trivial hstep, rfl, hstored, (List.append_nil (pid :: p.children)).symm ▸ hnext⟩
  | manage =>
    have hp := Option.some.inj hpc'
    have hstep : p.step (.spawnWorker (some pid)) = some
        { pc := .scanning (i + 1), manager := p.manager.countWorker.storeWorker i pid, children := pid :: p.children } := by
      simp only [ManagedPool.step, ManagedPool.spawnWorker, ← hp]
      exact if_pos hguard
    exact ⟨_, .step hreach trivial hstep, rfl, hstored, (List.append_nil (pid :: p.children)).symm ▸ hnext⟩

/-- A step of the process is one step of the pool or none. -/
theorem refines_step {n : Nat} {s s' : ManagerProcess} {a : Action} {p₀ p : ManagedPool} (hwf : WellFormed n s) (href : s.Refines p)
    (hok : s.ReapsBetweenCalls a) (h : s.step n a = some s') (hpool : s'.pc.pool ≠ none)
    (hreach : Reach ManagedPool.step (fun _ _ => True) p₀ p) :
    ∃ p', Reach ManagedPool.step (fun _ _ => True) p₀ p' ∧ s'.Refines p' := by
  have ⟨hpc', hmanager, hchildren⟩ := href
  cases step_cases h with
  | size hpc | alloc hpc hlen => simp [hpc, Pc.pool] at hpc'
  | spawned hpc hi =>
    rw [hpc] at hpc' hmanager hchildren
    have hp := Option.some.inj hpc'
    rw [show s.manager = p.manager from hmanager] at hi
    have hstep : p.step .run = some { p with pc := .outside } := by
      simp only [ManagedPool.step, ManagedPool.runStep, ← hp]
      exact if_neg hi
    exact ⟨_, .step hreach trivial hstep, rfl, hmanager, hchildren⟩
  | @fork caller i pid hpc hpos hfresh =>
    rw [hpc] at hpc' hmanager hchildren
    refine ⟨p, hreach, ?_, hmanager, ?_⟩
    · cases caller <;> exact hpc'
    · have hall : p.children.Perm s.children := by
        rw [← List.append_nil p.children]
        exact hchildren
      exact (List.perm_append_singleton pid _).trans (hall.cons pid)
  | @forkFailed caller i hpc =>
    rw [hpc] at hpc' hmanager hchildren
    cases caller with
    | spawn => exact absurd rfl hpool
    | manage =>
      have hp := Option.some.inj hpc'
      have hstep : p.step (.spawnWorker none) = some { p with pc := .scanning (i + 1) } := by
        simp only [ManagedPool.step, ManagedPool.spawnWorker, ← hp]
      exact ⟨_, .step hreach trivial hstep, rfl, hmanager, hchildren⟩
  | @count caller i pid hpc =>
    rw [hpc] at hpc' hmanager hchildren
    refine ⟨p, hreach, ?_, congrArg Manager.countWorker hmanager, hchildren⟩
    cases caller <;> exact hpc'
  | store hpc => exact refines_store hwf href hpc hreach
  | block hpc =>
    rcases hpc with hpc | hpc <;> rw [hpc] at hpc' hmanager hchildren <;> exact ⟨p, hreach, hpc', hmanager, hchildren⟩
  | enter hpc | suspend hpc =>
    rw [hpc] at hpc' hmanager hchildren
    exact ⟨p, hreach, hpc', hmanager, hchildren⟩
  | unblock hpc =>
    rw [hpc] at hpc' hmanager hchildren
    have hp := Option.some.inj hpc'
    have hworker : ¬p.manager.worker = true := by
      rw [← show s.manager = p.manager from hmanager, hwf.worker]
      exact Bool.false_ne_true
    have hstep : p.step .run = some { p with pc := .managing } := by
      simp only [ManagedPool.step, ManagedPool.runStep, ← hp, if_neg hworker]
    exact ⟨_, .step hreach trivial hstep, rfl, hmanager, hchildren⟩
  | missing hpc hcount =>
    rw [hpc] at hpc' hmanager hchildren
    have hp := Option.some.inj hpc'
    rw [show s.manager = p.manager from hmanager] at hcount
    have hstep : p.step .run = some { p with pc := .scanning 0 } := by
      simp only [ManagedPool.step, ManagedPool.runStep, ← hp, if_pos hcount]
    exact ⟨_, .step hreach trivial hstep, rfl, hmanager, hchildren⟩
  | complete hpc hcount =>
    rw [hpc] at hpc' hmanager hchildren
    have hp := Option.some.inj hpc'
    rw [show s.manager = p.manager from hmanager] at hcount
    have hstep : p.step .run = some { p with pc := .outside } := by
      simp only [ManagedPool.step, ManagedPool.runStep, ← hp, if_neg (not_not.mpr hcount)]
    exact ⟨_, .step hreach trivial hstep, rfl, hmanager, hchildren⟩
  | @found i hpc hi hpid =>
    rw [hpc] at hpc' hmanager hchildren
    have hp := Option.some.inj hpc'
    rw [show s.manager = p.manager from hmanager] at hi hpid
    have hstep : p.step .run = some { p with pc := .missing i } := by
      simp only [ManagedPool.step, ManagedPool.runStep, ← hp, if_pos hi, if_pos hpid]
    exact ⟨_, .step hreach trivial hstep, rfl, hmanager, hchildren⟩
  | @skip i hpc hi hpid =>
    rw [hpc] at hpc' hmanager hchildren
    have hp := Option.some.inj hpc'
    rw [show s.manager = p.manager from hmanager] at hi hpid
    have hstep : p.step .run = some { p with pc := .scanning (i + 1) } := by
      simp only [ManagedPool.step, ManagedPool.runStep, ← hp, if_pos hi, if_neg hpid]
    exact ⟨_, .step hreach trivial hstep, rfl, hmanager, hchildren⟩
  | scanned hpc hi =>
    rw [hpc] at hpc' hmanager hchildren
    have hp := Option.some.inj hpc'
    rw [show s.manager = p.manager from hmanager] at hi
    have hstep : p.step .run = some { p with pc := .managing } := by
      simp only [ManagedPool.step, ManagedPool.runStep, ← hp, if_neg hi]
    exact ⟨_, .step hreach trivial hstep, rfl, hmanager, hchildren⟩
  | @exit pid hlive =>
    have hperm : s.children.Perm (s.live.erase pid ++ pid :: s.zombies) :=
      (List.perm_middle.trans ((List.perm_cons_erase hlive).symm.append_right s.zombies)).symm
    exact ⟨p, hreach, hpc', hmanager, hchildren.trans hperm⟩
  | notify => exact ⟨p, hreach, hpc', hmanager, hchildren⟩
  | sigchld hpc _ horder => exact refines_sigchld hwf href hpc horder hok hreach
  | terminate hpc => exact absurd rfl hpool

/-- The pool begins with its allocation. -/
theorem refines_alloc {n : Nat} {s s' : ManagerProcess} {a : Action} (hwf : WellFormed n s) (hbefore : s.pc.pool = none)
    (h : s.step n a = some s') (hpool : s'.pc.pool ≠ none) : ∃ memory, memory.length = n ∧ s'.Refines (ManagedPool.new n memory) := by
  have hshape := hwf.shape
  cases step_cases h with
  | size => exact absurd rfl hpool
  | @alloc memory hpc hlen =>
    rw [hpc] at hshape
    have hmax : s.manager.maxWorkers = n := by rw [hshape.1]; rfl
    refine ⟨memory, hlen.trans hmax, rfl, congrArg (·.allocate memory) hshape.1, ?_⟩
    show List.Perm [] s.children
    rw [hshape.2]
  | exit | notify => exact absurd hbefore hpool
  | sigchld hpc _ horder =>
    obtain ⟨m, -, heq, -, -⟩ := sigchldHandler_spec hwf hpc horder
    rw [heq] at hpool
    by_cases hsusp : s.pc = .suspended
    · simp [hsusp, Pc.pool] at hbefore
    · exact absurd hbefore (by simpa [hsusp] using hpool)
  | terminate => exact absurd rfl hpool
  | block hpc => rcases hpc with hpc | hpc <;> simp [hpc, Pc.pool] at hbefore
  | @fork caller i pid hpc | @forkFailed caller i hpc | @count caller i pid hpc | @store caller i pid hpc =>
    cases caller <;> simp [hpc, Pc.pool] at hbefore
  | enter hpc | spawned hpc | suspend hpc | unblock hpc | missing hpc | complete hpc | found hpc | skip hpc | scanned hpc =>
    simp [hpc, Pc.pool] at hbefore

end PoolRefinementAux

open PoolRefinementAux ManagerProcess

/-- As long as no handler reaps inside of `spawn_worker`, a run of the process is a run of the pool. -/
theorem refines_of_reach {n : Nat} {s : ManagerProcess} (h : Reach (step n) ReapsBetweenCalls new s) (hpool : s.pc.pool ≠ none) :
    ∃ memory p, memory.length = n ∧ Reach ManagedPool.step (fun _ _ => True) (ManagedPool.new n memory) p ∧ s.Refines p := by
  refine (Reach.invariant (I := fun s => WellFormed n s ∧ (s.pc.pool ≠ none → ∃ memory p, memory.length = n ∧
    Reach ManagedPool.step (fun _ _ => True) (ManagedPool.new n memory) p ∧ s.Refines p)) h
    ⟨wellFormed_new n, fun hpool => absurd rfl hpool⟩ ?_).2 hpool
  rintro s a s' ⟨hwf, href⟩ hok hstep
  refine ⟨hwf.step hstep, fun hpool => ?_⟩
  by_cases hbefore : s.pc.pool = none
  · obtain ⟨memory, hmemory, href'⟩ := refines_alloc hwf hbefore hstep hpool
    exact ⟨memory, _, hmemory, .init, href'⟩
  · obtain ⟨memory, p, hmemory, hreach, href⟩ := href hbefore
    obtain ⟨p', hreach', href'⟩ := refines_step hwf href hok hstep hpool hreach
    exact ⟨memory, p', hmemory, hreach', href'⟩

/-- In such a run the count of the workers is right outside of `spawn` and `manage_workers`. -/
theorem workersCount_of_reach {n : Nat} (hn : n < 2 ^ 32) {s : ManagerProcess} (h : Reach (step n) ReapsBetweenCalls new s)
    (houtside : s.pc.pool = some .outside) : s.manager.workersCount = (Slots.used 0 s.manager.pids).length := by
  obtain ⟨memory, p, hmemory, hreach, hpc, hmanager, -⟩ := refines_of_reach h (by simp [houtside])
  have hp : p.pc = .outside := Option.some.inj (hpc.symm.trans houtside)
  have hstored : s.pc.unstored = [] := by
    cases hs : s.pc with
    | forked caller i pid | counted caller i pid => cases caller <;> simp [hs, Pc.pool] at houtside
    | _ => rfl
  have hsame : s.manager = p.manager := hmanager.trans (counts_of_unstored hstored p.manager)
  have hb := PoolAccountingAux.balanced_of_reach hn hmemory hreach (by simp [hp])
  have hfilled : p.filled = p.manager.pids := PoolAccountingAux.filled_of_spawned (by rw [hp]; rfl)
  rw [hsame, hb.count, ← hfilled]
  exact hb.used.length_eq.symm

end BitzServer
