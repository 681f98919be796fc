import BitzServer.Server.Process

/-!
# The wakeup of the manager

When the manager sleeps in `sigsuspend`, every slot of its pool has a worker, as long as no handler empties a slot between the last
look at the pool and `sigsuspend`.
-/

namespace BitzServer

open Runs

/-- The manager looks at the pool before it sleeps again: it is in `sigsuspend`, or in `manage_workers` or before it. -/
def Pc.looksAgain : Pc → Bool
  | suspended | woken | managing | scanning _ | forking .manage _ | forked .manage _ _ | counted .manage _ _ => true
  | _ => false

namespace ManagerProcess

/-- A handler empties no slot of the pool where the manager does not look at it before it sleeps. -/
def KeepsUnwatchedSlots (s : ManagerProcess) : Action → Prop
  | .sigchld _ => s.pc.looksAgain = false → ∀ pid ∈ s.zombies, pid ∉ s.manager.pids
  | _ => True

instance (s : ManagerProcess) : ∀ a, Decidable (s.KeepsUnwatchedSlots a)
  | .sigchld _ => inferInstanceAs (Decidable (s.pc.looksAgain = false → ∀ pid ∈ s.zombies, pid ∉ s.manager.pids))
  | .run | .alloc _ | .fork _ | .exit _ | .notify | .terminate => inferInstanceAs (Decidable True)

/-- What `workers_count` counts, as far as the manager has come. -/
abbrev CountedAt (n : Nat) (m : Manager) : Pc → Prop
  | .spawning i | .forking .spawn i => m.workersCount = i ∧ ∀ p ∈ m.pids.take i, p ≠ 0
  | .forked .spawn i pid => pid ≠ 0 ∧ m.workersCount = i ∧ ∀ p ∈ m.pids.take i, p ≠ 0
  | .counted .spawn i pid => pid ≠ 0 ∧ m.workersCount = i + 1 ∧ ∀ p ∈ m.pids.take i, p ≠ 0
  | .started | .testing | .suspended | .managed => m.workersCount = n ∧ ∀ p ∈ m.pids, p ≠ 0
  | .woken | .managing | .scanning _ | .forking .manage _ => m.workersCount = (Slots.used 0 m.pids).length
  | .forked .manage _ pid => pid ≠ 0 ∧ m.workersCount = (Slots.used 0 m.pids).length
  | .counted .manage _ pid => pid ≠ 0 ∧ m.workersCount = (Slots.used 0 m.pids).length + 1
  | .starting | .sized | .exited => True

end ManagerProcess

namespace LostWakeupAux

open ManagerProcess

/-- Where the manager does not look again, a handler that empties no slot changes nothing that is counted. -/
theorem countedAt_unwatched {n : Nat} {m m' : Manager} {pc : Pc} (hlooks : pc.looksAgain = false) (hpids : m'.pids = m.pids)
    (hcount : m'.workersCount = m.workersCount) (h : CountedAt n m pc) : CountedAt n m' pc := by
  cases pc with
  | suspended | woken | managing | scanning => simp [Pc.looksAgain] at hlooks
  | forking caller i | forked caller i pid | counted caller i pid =>
    cases caller with
    | manage => simp [Pc.looksAgain] at hlooks
    | spawn => simpa only [CountedAt, hpids, hcount] using h
  | spawning | started | testing | managed => simpa only [CountedAt, hpids, hcount] using h
  | starting | sized | exited => trivial

/-- Where the manager looks again, a handler empties as many slots as it counts. -/
theorem countedAt_watched {n : Nat} {m m' : Manager} {pc : Pc} (hlooks : pc.looksAgain = true)
    (hcount : ∀ k, m.workersCount = (Slots.used 0 m.pids).length + k → m'.workersCount = (Slots.used 0 m'.pids).length + k)
    (hlen : m.pids.length = n) (h : CountedAt n m pc) : CountedAt n m' (if pc = .suspended then .woken else pc) := by
  cases pc with
  | suspended =>
    have hall : Slots.used 0 m.pids = m.pids := List.filter_eq_self.mpr fun p hp => by simpa using h.2 p hp
    exact hcount 0 (by rw [hall, hlen]; exact h.1)
  | woken | managing | scanning => exact hcount 0 h
  | forking caller i =>
    cases caller with
    | spawn => simp [Pc.looksAgain] at hlooks
    | manage => exact hcount 0 h
  | forked caller i pid =>
    cases caller with
    | spawn => simp [Pc.looksAgain] at hlooks
    | manage => exact ⟨h.1, hcount 0 h.2⟩
  | counted caller i pid =>
    cases caller with
    | spawn => simp [Pc.looksAgain] at hlooks
    | manage => exact ⟨h.1, hcount 1 h.2⟩
  | starting | sized | spawning | started | testing | managed | exited => simp [Pc.looksAgain] at hlooks

/-- The pool is there where the manager looks at it again. -/
theorem allocated_of_looksAgain {n : Nat} {m : Manager} {children : List Int} {pc : Pc} (hlooks : pc.looksAgain = true)
    (h : ShapeAt n m children pc) : Allocated n m := by
  cases pc with
  | suspended | woken | managing => exact h
  | scanning => exact h.1
  | forking caller | forked caller | counted caller => cases caller <;> exact h.1
  | starting | sized | spawning | started | testing | managed | exited => simp [Pc.looksAgain] at hlooks

/-- There are at most as many used slots as slots, one less if one of them is empty. -/
theorem used_lt_of_empty {m : Manager} {i : Nat} (hempty : m.pids[i]? = some 0) : (Slots.used 0 m.pids).length < m.pids.length := by
  have hperm := Slots.used_set (a := 1) (by decide) hempty
  have hlen : (Slots.used 0 (m.pids.set i 1)).length ≤ (m.pids.set i 1).length := List.length_filter_le ..
  rw [hperm.length_eq, List.length_cons, List.length_set] at hlen
  exact hlen

/-- No more workers are counted than there are slots. -/
theorem workersCount_le {n : Nat} {m : Manager} {children : List Int} {pc : Pc} (hlooks : pc.looksAgain = true)
    (hshape : ShapeAt n m children pc) (h : CountedAt n m pc) : m.workersCount ≤ n := by
  have hused : (Slots.used 0 m.pids).length ≤ n :=
    (allocated_of_looksAgain hlooks hshape).length ▸ List.length_filter_le ..
  cases pc with
  | suspended => exact h.1.le
  | woken | managing | scanning => exact h.trans_le hused
  | forking caller i =>
    cases caller with
    | spawn => simp [Pc.looksAgain] at hlooks
    | manage => exact h.trans_le hused
  | forked caller i pid =>
    cases caller with
    | spawn => simp [Pc.looksAgain] at hlooks
    | manage => exact h.2.trans_le hused
  | counted caller i pid =>
    cases caller with
    | spawn => simp [Pc.looksAgain] at hlooks
    | manage => exact h.2.trans_le (hshape.1.length ▸ used_lt_of_empty hshape.2.2)
  | starting | sized | spawning | started | testing | managed | exited => simp [Pc.looksAgain] at hlooks

/-- The handler keeps the count. -/
theorem countedAt_sigchld {n : Nat} {s : ManagerProcess} (hn : n < 2 ^ 32) (hwf : WellFormed n s) (hcount : CountedAt n s.manager s.pc)
    (hpc : s.pc ≠ .exited) {order : List Int} (horder : order.Perm s.zombies)
    (hkeeps : s.pc.looksAgain = false → ∀ pid ∈ s.zombies, pid ∉ s.manager.pids) :
    CountedAt n (s.sigchldHandler order).manager (s.sigchldHandler order).pc := by
  obtain ⟨m, hrun, heq, -, hpids⟩ := sigchldHandler_spec hwf hpc horder
  rw [heq]
  cases hlooks : s.pc.looksAgain with
  | false =>
    have hnot : ∀ pid ∈ order, pid ∉ s.manager.pids := fun pid hpid => hkeeps hlooks pid (horder.mem_iff.mp hpid)
    have hsusp : s.pc ≠ .suspended := fun h => by simp [h, Pc.looksAgain] at hlooks
    have hsame : m.workersCount = s.manager.workersCount := by
      rcases hwf.shape.walkable hpc with hwalk | hnone
      · exact Manager.reapWorkers_unknown hwf.worker hwalk hrun hnot
      · obtain rfl : order = [] := ((List.append_eq_nil_iff.mp hnone).2 ▸ horder).eq_nil
        rw [Except.ok.inj hrun]
    rw [Slots.clear_of_not_mem hnot] at hpids
    simp only [if_neg hsusp]
    exact countedAt_unwatched hlooks hpids hsame hcount
  | true =>
    have halloc := allocated_of_looksAgain hlooks hwf.shape
    have hne : ∀ pid ∈ order, pid ≠ 0 := fun pid hpid =>
      (hwf.pos pid (List.mem_append_right _ (horder.mem_iff.mp hpid))).ne'
    refine countedAt_watched hlooks (fun k hk => ?_) halloc.length hcount
    exact Manager.reapWorkers_count hwf.worker (.inl halloc.workerPool) hrun hne
      (Nat.lt_of_le_of_lt (workersCount_le hlooks hwf.shape hcount) hn) hk

/-- The slots after one more of the first is filled. -/
theorem ne_zero_of_store {pids : List Int} {i : Nat} {pid : Int} (hpid : pid ≠ 0) (hi : i < pids.length)
    (h : ∀ p ∈ pids.take i, p ≠ 0) : ∀ p ∈ (pids.set i pid).take (i + 1), p ≠ 0 := by
  rw [Slots.take_set_succ hi]
  intro p hp
  rcases List.mem_append.mp hp with hp | hp
  · exact h p hp
  · exact List.mem_singleton.mp hp ▸ hpid

/-- Every step that empties no slot behind the manager's back keeps the count. -/
theorem countedAt_step {n : Nat} {s s' : ManagerProcess} {a : Action} (hn : n < 2 ^ 32) (hwf : WellFormed n s)
    (hcount : CountedAt n s.manager s.pc) (hok : s.KeepsUnwatchedSlots a) (h : s.step n a = some s') :
    CountedAt n s'.manager s'.pc := by
  have hshape := hwf.shape
  cases step_cases h with
  | size hpc => trivial
  | alloc hpc hlen =>
    rw [hpc] at hshape
    exact ⟨congrArg Manager.workersCount hshape.1, by simp⟩
  | enter hpc hi =>
    rw [hpc] at hcount
    exact hcount
  | @spawned i hpc hi =>
    rw [hpc] at hshape hcount
    have hin : i = n := le_antisymm hshape.2 (hshape.1.maxWorkers ▸ not_lt.mp hi)
    have hall : s.manager.pids.take i = s.manager.pids := List.take_of_length_le (hshape.1.length.trans hin.symm).le
    exact ⟨hcount.1.trans hin, hall ▸ hcount.2⟩
  | @fork caller i pid hpc hpos hfresh =>
    rw [hpc] at hcount
    cases caller <;> exact ⟨hpos.ne', hcount⟩
  | @forkFailed caller i hpc =>
    rw [hpc] at hcount
    cases caller with
    | spawn => trivial
    | manage => exact hcount
  | @count caller i pid hpc =>
    rw [hpc] at hshape hcount
    have hlt : s.manager.workersCount + 1 < 2 ^ 32 := by
      cases caller with
      | spawn =>
        have := hshape.2
        have := hcount.2.1
        omega
      | manage =>
        have := used_lt_of_empty hshape.2.2
        have := hshape.1.length
        have := hcount.2
        omega
    have hinc : s.manager.countWorker.workersCount = s.manager.workersCount + 1 := Nat.mod_eq_of_lt hlt
    cases caller with
    | spawn => exact ⟨hcount.1, hinc.trans (congrArg (· + 1) hcount.2.1), hcount.2.2⟩
    | manage => exact ⟨hcount.1, hinc.trans (congrArg (· + 1) hcount.2)⟩
  | @store caller i pid hpc =>
    rw [hpc] at hshape hcount
    cases caller with
    | spawn =>
      refine ⟨hcount.2.1, ?_⟩
      rw [Manager.pids_storeWorker]
      exact ne_zero_of_store hcount.1 (hshape.1.length.symm ▸ hshape.2) hcount.2.2
    | manage =>
      show s.manager.workersCount = (Slots.used 0 (s.manager.storeWorker i pid).pids).length
      rw [Manager.pids_storeWorker, (Slots.used_set hcount.1 hshape.2.2).length_eq]
      exact hcount.2
  | block hpc => rcases hpc with hpc | hpc <;> rw [hpc] at hcount <;> exact hcount
  | suspend hpc | unblock hpc | missing hpc | found hpc | skip hpc | scanned hpc =>
    rw [hpc] at hcount
    exact hcount
  | complete hpc hall =>
    rw [hpc] at hshape hcount
    have hn : s.manager.workersCount = n := hall.trans hshape.maxWorkers
    exact ⟨hn, Slots.ne_empty_of_length (hcount.symm.trans (hn.trans hshape.length.symm))⟩
  | exit | notify => exact hcount
  | sigchld hpc _ horder => exact countedAt_sigchld hn hwf hcount hpc horder hok
  | terminate => trivial

end LostWakeupAux

open LostWakeupAux ManagerProcess

/-- The manager sleeps, nothing is pending that would wake it, and it misses a worker. -/
def SleepsOnMissing (s : ManagerProcess) : Prop := s.pc = .suspended ∧ s.chldPending = false ∧ ∃ pid ∈ s.manager.pids, pid = 0

/-- In every run in which no handler empties a slot of the pool where the manager does not look at it again, the manager never sleeps
on a missing worker. -/
theorem not_sleepsOnMissing {n : Nat} (hn : n < 2 ^ 32) {s : ManagerProcess} (h : Reach (step n) KeepsUnwatchedSlots new s) :
    ¬SleepsOnMissing s := by
  have hinv := Reach.invariant (I := fun s => WellFormed n s ∧ CountedAt n s.manager s.pc) h ⟨wellFormed_new n, trivial⟩
    fun _ _ _ hinv hok hstep => ⟨hinv.1.step hstep, countedAt_step hn hinv.1 hinv.2 hok hstep⟩
  rintro ⟨hpc, -, pid, hpid, hzero⟩
  have hcount := hinv.2
  rw [hpc] at hcount
  exact hcount.2 pid hpid hzero

/-- The steps of a start with one worker, up to the first test of the loop in `run`. -/
def oneWorkerRun : List Action := [.run, .alloc [⟨0, 0, 0⟩], .run, .fork (some 100), .run, .run, .run]

/-- The manager in `sigsuspend`, with its one slot, and the one worker if it has not been reaped. -/
def oneWorkerAsleep (workersCount : Nat) (pid : Int) (live : List Int) : ManagerProcess where
  pc := .suspended
  manager := { worker := false, maxWorkers := 1, workersCount := workersCount, workerId := 0, workerPool := some [⟨pid, 0, 0⟩] }
  live := live
  zombies := []
  chldPending := false

/-- The one worker exits in the first `sigsuspend` and is reaped there, and the manager sleeps on the worker in its place. -/
theorem not_sleepsOnMissing_one : ¬SleepsOnMissing (oneWorkerAsleep 1 101 [101]) := by
  have hexec : exec (step 1) KeepsUnwatchedSlots new (oneWorkerRun ++ [.run, .run, .exit 100, .sigchld [100], .run, .run, .run,
      .fork (some 101), .run, .run, .run, .run, .run, .run]) = some (oneWorkerAsleep 1 101 [101]) := by
    decide
  exact not_sleepsOnMissing (by decide) (reach_of_exec .init hexec)

/-- The one worker exits and is reaped after `spawn` has returned and before `sigsuspend`: the manager sleeps without it. -/
theorem not_sleepsOnMissing_false : ¬∀ (n : Nat) (s : ManagerProcess), n < 2 ^ 32 → Reach (step n) (fun _ _ => True) new s →
    ¬SleepsOnMissing s := by
  intro h
  have hexec : exec (step 1) (fun _ _ => True) new (oneWorkerRun ++ [.exit 100, .sigchld [100], .run, .run]) =
      some (oneWorkerAsleep 0 0 []) := by decide
  exact h 1 _ (by decide) (reach_of_exec .init hexec) ⟨rfl, rfl, 0, by decide, rfl⟩

end BitzServer
