import BitzServer.Server.Process

/-!
# The worker pool and the children

What the slots of the pool say about the children of the manager. As long as no handler reaps a child before its process id is
stored, the slots that `spawn` has filled and the child that waits for its slot are exactly the children that have not been
reaped.
-/

namespace BitzServer

open Runs

/-- The child whose process id is not stored yet. -/
def Pc.unstored : Pc → List Int
  | forked _ _ pid | counted _ _ pid => [pid]
  | _ => []

/-- The number of slots `spawn` has filled so far, none once it has filled all. -/
def Pc.filledSlots : Pc → Option Nat
  | starting | sized => some 0
  | spawning i | forking .spawn i | forked .spawn i _ | counted .spawn i _ => some i
  | _ => none

/-- The manager is in `spawn`, in `spawn_worker` or in `manage_workers`. -/
def Pc.managesWorkers : Pc → Bool
  | sized | spawning _ | forking _ _ | forked _ _ _ | counted _ _ _ | managing | scanning _ => true
  | _ => false

namespace ManagerProcess

/-- The slots that have been filled. -/
def filled (s : ManagerProcess) : List Int :=
  match s.pc.filledSlots with
  | some i => s.manager.pids.take i
  | none => s.manager.pids

/-- The slots that still hold what the memory held. -/
def unfilled (s : ManagerProcess) : List Int :=
  match s.pc.filledSlots with
  | some i => s.manager.pids.drop i
  | none => []

/-- No handler reaps a child whose process id is not stored yet. -/
def ReapsStored (s : ManagerProcess) : Action → Prop
  | .sigchld _ => ∀ pid ∈ s.pc.unstored, pid ∉ s.zombies
  | _ => True

instance (s : ManagerProcess) : ∀ a, Decidable (s.ReapsStored a)
  | .sigchld _ => inferInstanceAs (Decidable (∀ pid ∈ s.pc.unstored, pid ∉ s.zombies))
  | .run | .alloc _ | .fork _ | .exit _ | .notify | .terminate => inferInstanceAs (Decidable True)

/-- The filled slots and the child that waits for its slot are the children that have not been reaped. -/
def Accounted (s : ManagerProcess) : Prop :=
  s.pc ≠ .exited → (Slots.used 0 s.filled ++ s.pc.unstored).Perm s.children

theorem filled_append_unfilled (s : ManagerProcess) : s.filled ++ s.unfilled = s.manager.pids := by
  unfold filled unfilled
  split
  · exact List.take_append_drop _ _
  · exact List.append_nil _

end ManagerProcess

namespace WorkerPoolAux

open ManagerProcess

/-- The handler reaps children of filled slots. -/
theorem accounted_sigchld {n : Nat} {s : ManagerProcess} (hwf : WellFormed n s) (hacc : s.Accounted) (hpc : s.pc ≠ .exited)
    {order : List Int} (horder : order.Perm s.zombies) (hstored : ∀ pid ∈ s.pc.unstored, pid ∉ s.zombies) :
    (s.sigchldHandler order).Accounted := by
  obtain ⟨m, -, heq, -, hpids⟩ := sigchldHandler_spec hwf hpc horder
  have hperm : (Slots.used 0 s.filled ++ s.pc.unstored).Perm (s.live ++ order) := (hacc hpc).trans (horder.symm.append_left s.live)
  have hnd : order.Nodup := horder.nodup_iff.mpr hwf.nodup.of_append_right
  have hmem : ∀ pid ∈ order, pid ∈ Slots.used 0 s.filled := by
    intro pid hpid
    rcases List.mem_append.mp (hperm.mem_iff.mpr (List.mem_append_right _ hpid)) with h | h
    · exact h
    · exact absurd (horder.mem_iff.mp hpid) (hstored pid h)
  have hfilled : (s.sigchldHandler order).filled = Slots.clear 0 s.filled order := by
    rw [heq]
    unfold filled at hmem ⊢
    by_cases hsusp : s.pc = .suspended
    · rw [if_pos hsusp, hsusp]
      exact hpids
    · rw [if_neg hsusp]
      show (match s.pc.filledSlots with | some i => m.pids.take i | none => m.pids) = _
      rw [hpids]
      cases hslots : s.pc.filledSlots with
      | none => rfl
      | some i =>
        rw [hslots] at hmem
        exact Slots.take_clear hnd hmem
  have hunstored : (s.sigchldHandler order).pc.unstored = s.pc.unstored := by
    rw [heq]
    by_cases hsusp : s.pc = .suspended
    · rw [if_pos hsusp, hsusp]
      rfl
    · rw [if_neg hsusp]
  intro _
  rw [hfilled, hunstored, heq]
  show List.Perm _ (s.live ++ [])
  rw [List.append_nil]
  exact Slots.perm_of_perm_append hperm hmem hnd

/-- Every step that reaps only stored children keeps the account. -/
theorem accounted_step {n : Nat} {s s' : ManagerProcess} {a : Action} (hwf : WellFormed n s) (hacc : s.Accounted)
    (hok : s.ReapsStored a) (h : s.step n a = some s') : s'.Accounted := by
  have hshape := hwf.shape
  unfold Accounted filled at hacc
  cases step_cases h with
  | size hpc =>
    rw [hpc] at hshape
    intro _
    show List.Perm [] s.children
    rw [hshape.2]
  | alloc hpc hlen =>
    rw [hpc] at hshape
    intro _
    show List.Perm [] s.children
    rw [hshape.2]
  | spawned hpc hi =>
    rw [hpc] at hshape hacc
    have hall : s.manager.pids.take _ = s.manager.pids := List.take_of_length_le (hshape.1.length.trans hshape.1.maxWorkers.symm ▸ not_lt.mp hi)
    have := hacc (by simp)
    simp only [Pc.filledSlots, hall] at this
    exact fun _ => this
  | @fork caller i pid hpc hpos hfresh =>
    rw [hpc] at hacc
    have hadd : ∀ l : List Int, (l ++ []).Perm s.children → (l ++ [pid]).Perm (pid :: s.children) := by
      intro l hl
      rw [List.append_nil] at hl
      exact (List.perm_append_singleton pid l).trans (hl.cons pid)
    cases caller <;> exact fun _ => hadd _ (hacc (by simp))
  | @forkFailed caller i hpc =>
    rw [hpc] at hacc
    cases caller with
    | spawn => exact fun hexited => absurd rfl hexited
    | manage => exact fun _ => hacc (by simp)
  | @count caller i pid hpc =>
    rw [hpc] at hacc
    cases caller <;> exact fun _ => hacc (by simp)
  | @store caller i pid hpc =>
    rw [hpc] at hshape hacc
    have hpid : pid ≠ 0 := by
      have hmem : pid ∈ s.children := (hacc (by simp)).mem_iff.mp (List.mem_append_right _ (List.mem_singleton_self pid))
      have := hwf.pos pid hmem
      omega
    unfold Accounted filled
    simp only [Manager.pids_storeWorker]
    intro _
    cases caller with
    | spawn =>
      have hi : i < s.manager.pids.length := hshape.1.length.symm ▸ hshape.2
      have hused : Slots.used 0 [pid] = [pid] := by simp [Slots.used, hpid]
      show (Slots.used 0 ((s.manager.pids.set i pid).take (i + 1)) ++ []).Perm s.children
      rw [Slots.take_set_succ hi, Slots.used_append, hused, List.append_nil]
      exact hacc (by simp)
    | manage =>
      show (Slots.used 0 (s.manager.pids.set i pid) ++ []).Perm s.children
      rw [List.append_nil]
      exact ((Slots.used_set hpid hshape.2.2).trans (List.perm_append_singleton pid _).symm).trans (hacc (by simp))
  | block hpc =>
    rcases hpc with hpc | hpc <;> rw [hpc] at hacc <;> exact fun _ => hacc (by simp)
  | enter hpc | suspend hpc | unblock hpc | missing hpc | complete hpc | found hpc | skip hpc | scanned hpc =>
    rw [hpc] at hacc
    exact fun _ => hacc (by simp)
  | @exit pid hlive =>
    intro hpc
    exact (hacc hpc).trans (List.perm_middle.trans ((List.perm_cons_erase hlive).symm.append_right s.zombies)).symm
  | notify => exact hacc
  | sigchld hpc _ horder => exact accounted_sigchld hwf hacc hpc horder hok
  | terminate hpc => exact fun hexited => absurd rfl hexited

/-- In a run that reaps only stored children the pool is well-formed and accounted. -/
theorem accounted_of_reach {n : Nat} {s : ManagerProcess} (h : Reach (step n) ReapsStored new s) : WellFormed n s ∧ s.Accounted :=
  Reach.invariant (I := fun s => WellFormed n s ∧ s.Accounted) h ⟨wellFormed_new n, fun _ => List.Perm.refl _⟩
    fun _ _ _ hinv hok hstep => ⟨hinv.1.step hstep, accounted_step hinv.1 hinv.2 hok hstep⟩

end WorkerPoolAux

open WorkerPoolAux ManagerProcess

/-! ## The recorded workers -/

/-- Every process id in the pool is that of a child that has not been reaped. -/
def RecordsAlive (s : ManagerProcess) : Prop := ∀ pid ∈ s.manager.pids, pid ≠ 0 → pid ∈ s.children

/-- In every run that reaps only stored children, the pool records no dead worker where the manager is outside of `spawn` and
`manage_workers`. -/
theorem recordsAlive {n : Nat} {s : ManagerProcess} (h : Reach (step n) ReapsStored new s) (hpc : s.pc.managesWorkers = false)
    (hexited : s.pc ≠ .exited) : RecordsAlive s := by
  obtain ⟨hwf, hacc⟩ := accounted_of_reach h
  have hshape := hwf.shape
  have hperm := hacc hexited
  unfold filled at hperm
  intro pid hpid hne
  cases hs : s.pc with
  | starting =>
    rw [hs] at hshape
    rw [hshape.1] at hpid
    exact absurd hpid (by simp [Manager.pids, Manager.new])
  | started | testing | suspended | woken | managed =>
    rw [hs] at hperm
    exact hperm.mem_iff.mp (List.mem_append_left _ (Slots.mem_used.mpr ⟨hpid, hne⟩))
  | exited => exact absurd hs hexited
  | sized | spawning | forking | forked | counted | managing | scanning => simp [hs, Pc.managesWorkers] at hpc

/-- The steps of a start with one worker. -/
def oneWorkerStart : List Action := [.run, .alloc [⟨999, 0, 0⟩], .run, .fork (some 100), .run, .run, .run]

/-- The worker exits while the manager sleeps and is reaped; `manage_workers` starts another one in its place. -/
def oneWorkerReplaced : List Action :=
  [.run, .run, .exit 100, .sigchld [100], .run, .run, .run, .fork (some 101), .run, .run, .run, .run]

/-- The pool with the one worker. -/
def oneWorkerPool (pc : Pc) (pid : Int) : ManagerProcess where
  pc := pc
  manager := { worker := false, maxWorkers := 1, workersCount := 1, workerId := 0, workerPool := some [⟨pid, 0, 0⟩] }
  live := [pid]
  zombies := []
  chldPending := false

/-- When the one worker has been replaced, the pool records the other one. -/
theorem recordsAlive_one : RecordsAlive (oneWorkerPool .managed 101) := by
  have hexec : exec (step 1) ReapsStored new (oneWorkerStart ++ oneWorkerReplaced) = some (oneWorkerPool .managed 101) := by
    decide
  exact recordsAlive (reach_of_exec .init hexec) rfl (by decide)

/-- A worker that is reaped between `fork` and the store of its process id is recorded for ever. -/
theorem recordsAlive_false : ¬∀ (n : Nat) (s : ManagerProcess), Reach (step n) (fun _ _ => True) new s →
    s.pc.managesWorkers = false → s.pc ≠ .exited → RecordsAlive s := by
  intro h
  have hexec : exec (step 1) (fun _ _ => True) new
      [.run, .alloc [⟨0, 0, 0⟩], .run, .fork (some 100), .exit 100, .sigchld [100], .run, .run, .run] =
      some { oneWorkerPool .started 100 with live := [] } := by decide
  have hdead := h 1 _ (reach_of_exec .init hexec) rfl (by decide) 100 (by decide) (by decide)
  exact absurd hdead (by decide)

/-! ## The signals of `shutdown` -/

/-- A graceful `shutdown` sends a signal to the children that have not been reaped, and to no other process. -/
def ShutdownExact (s : ManagerProcess) : Prop :=
  ∃ actions, s.manager.shutdown true = .ok actions ∧ ∀ action, action ∈ actions ↔ ∃ pid ∈ s.children, action = .kill pid .term

/-- The pool is there, the memory of the slots that are not filled yet names no other process, and the child whose process id is not
stored yet, if there is one, is named by it. -/
def MemoryNamesChildren (s : ManagerProcess) : Prop :=
  s.manager.Walkable ∧ (∀ pid ∈ s.unfilled, pid ≠ 0 → pid ∈ s.children) ∧ ∀ pid ∈ s.pc.unstored, pid ∈ s.unfilled

namespace WorkerPoolAux

/-- What a graceful `shutdown` through a pool does. -/
theorem shutdownExact_iff_mem {s : ManagerProcess} (hworker : s.manager.worker = false) : ShutdownExact s ↔
    s.manager.Walkable ∧ ∀ pid, pid ∈ Slots.used 0 s.manager.pids ↔ pid ∈ s.children := by
  unfold ShutdownExact
  have heq := Manager.shutdown_graceful hworker
  by_cases hwalk : s.manager.Walkable
  · rw [if_pos hwalk] at heq
    simp only [heq, hwalk, true_and, Except.ok.injEq, exists_eq_left', List.mem_map]
    constructor
    · intro h pid
      have hpid := h (.kill pid .term)
      constructor
      · intro hmem
        obtain ⟨p, hp, heq⟩ := hpid.mp ⟨pid, hmem, rfl⟩
        obtain ⟨rfl, -⟩ := ShutdownAction.kill.inj heq
        exact hp
      · intro hmem
        obtain ⟨p, hp, heq⟩ := hpid.mpr ⟨pid, hmem, rfl⟩
        obtain ⟨rfl, -⟩ := ShutdownAction.kill.inj heq
        exact hp
    · intro h action
      constructor
      · rintro ⟨pid, hpid, rfl⟩
        exact ⟨pid, (h pid).mp hpid, rfl⟩
      · rintro ⟨pid, hpid, rfl⟩
        exact ⟨pid, (h pid).mpr hpid, rfl⟩
  · rw [if_neg hwalk] at heq
    refine iff_of_false ?_ fun h => hwalk h.1
    rintro ⟨actions, h, -⟩
    exact absurd (heq.symm.trans h) (by simp)

end WorkerPoolAux

/-- In every run that reaps only stored children, at every point where the manager is in `spawn`, `spawn_worker` or `manage_workers`:
`shutdown` signals exactly the children if and only if the memory of the slots that are not filled yet names them. -/
theorem shutdownExact_iff {n : Nat} {s : ManagerProcess} (h : Reach (step n) ReapsStored new s) (hpc : s.pc.managesWorkers = true) :
    ShutdownExact s ↔ MemoryNamesChildren s := by
  obtain ⟨hwf, hacc⟩ := accounted_of_reach h
  have hperm := hacc fun hexited => by simp [hexited, Pc.managesWorkers] at hpc
  have hnd := hperm.nodup_iff.mpr hwf.nodup
  have hpos : ∀ pid ∈ s.children, pid ≠ 0 := fun pid hpid => (hwf.pos pid hpid).ne'
  have hchild : ∀ pid, pid ∈ s.children ↔ pid ∈ Slots.used 0 s.filled ∨ pid ∈ s.pc.unstored := fun pid => by
    rw [← hperm.mem_iff, List.mem_append]
  have hslot : ∀ pid, pid ∈ Slots.used 0 s.manager.pids ↔ pid ∈ Slots.used 0 s.filled ∨ pid ∈ s.unfilled ∧ pid ≠ 0 := fun pid => by
    rw [← filled_append_unfilled, Slots.used_append, List.mem_append, @Slots.mem_used _ _ _ s.unfilled]
  rw [shutdownExact_iff_mem hwf.worker]
  refine and_congr_right fun _ => ⟨fun hexact => ⟨fun pid hpid hne => ?_, fun pid hpid => ?_⟩, fun hmem pid => ?_⟩
  · exact (hexact pid).mp ((hslot pid).mpr (.inr ⟨hpid, hne⟩))
  · have hused := (hslot pid).mp ((hexact pid).mpr ((hchild pid).mpr (.inr hpid)))
    rcases hused with hfilled | hunfilled
    · exact (List.disjoint_of_nodup_append hnd hfilled hpid).elim
    · exact hunfilled.1
  · rw [hslot, hchild]
    constructor
    · rintro (hfilled | ⟨hunfilled, hne⟩)
      · exact .inl hfilled
      · exact (hchild pid).mp (hmem.1 pid hunfilled hne)
    · rintro (hfilled | hunstored)
      · exact .inl hfilled
      · exact .inr ⟨hmem.2 pid hunstored, hpos pid ((hchild pid).mpr (.inr hunstored))⟩

/-- With one worker stored, `shutdown` signals it. -/
theorem shutdownExact_one : ShutdownExact (oneWorkerPool (.spawning 1) 100) := by
  have hexec : exec (step 1) ReapsStored new (oneWorkerStart.take 6) = some (oneWorkerPool (.spawning 1) 100) := by decide
  exact (shutdownExact_iff (reach_of_exec .init hexec) rfl).mpr ⟨.inl rfl, by decide, by decide⟩

/-- Before the first worker is forked, `shutdown` signals whatever the memory names. -/
theorem shutdownExact_false : ¬∀ (n : Nat) (s : ManagerProcess), Reach (step n) (fun _ _ => True) new s →
    s.pc.managesWorkers = true → ShutdownExact s := by
  intro h
  have hexec : exec (step 1) (fun _ _ => True) new [.run, .alloc [⟨999, 0, 0⟩]] =
      some { oneWorkerPool (.spawning 0) 999 with manager := (Manager.new.setMaxWorkers 1).allocate [⟨999, 0, 0⟩], live := [] } := by
    decide
  have hexact := (shutdownExact_iff_mem rfl).mp (h 1 _ (reach_of_exec .init hexec) rfl)
  exact absurd ((hexact.2 999).mp (by decide)) (by decide)

end BitzServer
