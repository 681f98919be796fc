import BitzServer.Server.Process
import BitzServer.Server.WorkerProcess

/-!
# A termination signal in a worker

The child of `spawn_worker` has the handlers of the manager from its first instruction to its last. `shutdown` asks the copied manager
whether it is in a worker, and which object to delete: too early before `_manager.worker` is set, and once too often after the worker
is deleted.
-/

namespace BitzServer

open Runs

/-- Where in the child `shutdown` finds its worker or none: from the new worker in the slot to the last statement before it is deleted,
and between `_manager.worker` and the new worker where the slot that `_manager.worker_id` names then has held none at `fork`. -/
def ChildPc.FindsOwnWorker (m : Manager) (workerId : Nat) : ChildPc → Prop
  | forked | deleted => False
  | flagged => m.slotWorker m.workerId = some 0
  | numbered => m.slotWorker workerId = some 0
  | constructed | slotNumbered | running | ran | logged => True

namespace WorkerProcess

/-- If a termination signal ends the child now, `shutdown` has taken the branch of the worker, and in its life the child has made its
worker at most, then deleted it at most, and done nothing else to a worker. -/
structure CleansUpOnce (address : Nat) (c : WorkerProcess) : Prop where
  worker : c.manager.worker = true
  life : ∃ events, c.terminate = .ok events ∧ WorkerEvent.effects events <+: [.construct address, .delete address]

/-- What the child has got to. -/
abbrev StateAt (m : Manager) (workerId address : Nat) (c : WorkerProcess) : ChildPc → Prop
  | .forked => c.manager = m ∧ c.events = []
  | .flagged => c.manager = { m with worker := true } ∧ c.events = []
  | .numbered => c.manager = { m with worker := true, workerId := workerId } ∧ c.events = []
  | .constructed | .slotNumbered | .running | .ran | .logged => c.events = [.construct address] ∧ c.manager.worker = true ∧
      c.manager.workerId = workerId ∧ c.manager.slotWorker workerId = some address
  | .deleted => c.events = [.construct address, .delete address] ∧ c.manager.worker = true ∧
      c.manager.workerId = workerId ∧ c.manager.slotWorker workerId = some address

end WorkerProcess

namespace WorkerShutdownAux

open WorkerProcess

/-- Every statement gets the child on. -/
theorem stateAt_step {m : Manager} {workerId address : Nat} {c c' : WorkerProcess} {u : Unit} (hslot : (m.slotWorker workerId).isSome)
    (h : StateAt m workerId address c c.pc) (hstep : step workerId address c u = some c') : StateAt m workerId address c' c'.pc := by
  unfold step at hstep
  cases hpc : c.pc with
  | forked | flagged =>
    rw [hpc] at h
    simp only [hpc, Option.some.injEq] at hstep
    subst hstep
    exact ⟨by rw [h.1], h.2⟩
  | numbered =>
    rw [hpc] at h
    simp only [hpc, Option.some.injEq] at hstep
    subst hstep
    obtain ⟨slot, hget⟩ := Option.isSome_iff_exists.mp (Option.isSome_map ▸ hslot)
    refine ⟨by rw [h.2]; rfl, by rw [h.1]; rfl, by rw [h.1]; rfl, ?_⟩
    rw [Manager.slotWorker_modifySlot, h.1]
    simp only [hget]
    rfl
  | constructed =>
    rw [hpc] at h
    simp only [hpc, Option.some.injEq] at hstep
    subst hstep
    have hkeeps := Manager.slotWorker_modifySlot_of_eq (m := c.manager) (i := workerId)
      (f := fun slot => { slot with workerId := workerId }) fun _ => rfl
    exact ⟨h.1, h.2.1, h.2.2.1, hkeeps.trans h.2.2.2⟩
  | slotNumbered =>
    rw [hpc] at h
    simp only [hpc, Option.some.injEq] at hstep
    subst hstep
    have hkeeps := Manager.slotWorker_modifySlot_of_eq (m := c.manager) (i := workerId)
      (f := fun slot => { slot with workerPid := 0 }) fun _ => rfl
    exact ⟨h.1, h.2.1, h.2.2.1, hkeeps.trans h.2.2.2⟩
  | running | ran =>
    rw [hpc] at h
    simp only [hpc, Option.some.injEq] at hstep
    subst hstep
    exact h
  | logged =>
    rw [hpc] at h
    simp only [hpc, h.2.2.2, Option.map_some, Option.some.injEq] at hstep
    subst hstep
    exact ⟨by rw [h.1]; rfl, h.2⟩
  | deleted => simp [hpc] at hstep

/-- The life of a child in which `shutdown` deletes the worker of a slot. -/
theorem cleansUpOnce_iff_slot {c : WorkerProcess} (hworker : c.manager.worker = true) (address : Nat) : c.CleansUpOnce address ↔
    ∃ worker, c.manager.slotWorker c.manager.workerId = some worker ∧
      WorkerEvent.effects (c.events ++ [.delete worker]) <+: [.construct address, .delete address] := by
  rcases hslot : c.manager.slotWorker c.manager.workerId with _ | worker
  · obtain ⟨fault, hshutdown⟩ := Manager.shutdown_worker_none hworker hslot true
    refine iff_of_false ?_ nofun
    rintro ⟨-, events, hrun, -⟩
    rw [terminate, hshutdown] at hrun
    exact absurd hrun nofun
  · have hrun : c.terminate = .ok (c.events ++ [.delete worker]) := by
      rw [terminate, Manager.shutdown_worker hworker hslot]
      rfl
    constructor
    · rintro ⟨-, events, hrun', hlife⟩
      obtain rfl := Except.ok.inj (hrun.symm.trans hrun')
      exact ⟨worker, rfl, hlife⟩
    · rintro ⟨_, heq, hlife⟩
      obtain rfl := Option.some.inj heq
      exact ⟨hworker, _, hrun, hlife⟩

/-- To delete a worker before one is made is right only if there is none. -/
theorem deletes_first {worker address : Nat} : WorkerEvent.effects [.delete worker] <+: [.construct address, .delete address] ↔
    worker = 0 := by
  by_cases h : worker = 0 <;> simp [WorkerEvent.effects, h, List.cons_prefix_cons]

/-- The slot that `fork` is called for is there. -/
theorem slotWorker_isSome {n : Nat} {m : Manager} (h : ManagerProcess.Allocated n m) {i : Nat} (hi : i < n) :
    (m.slotWorker i).isSome = true := by
  have hlen : (m.workerPool.getD []).length = n := by
    rw [← h.length, Manager.pids, List.length_map]
  rw [Manager.slotWorker, Option.isSome_map, List.getElem?_eq_getElem (by rw [hlen]; exact hi), Option.isSome_some]

end WorkerShutdownAux

open WorkerShutdownAux

/-- A termination signal at a point of the child, in any run of the manager up to the `fork`: the child cleans up its worker, once, if and
only if `shutdown` finds its worker or none there. -/
theorem cleansUpOnce_iff {n : Nat} {s : ManagerProcess} (hs : Reach (ManagerProcess.step n) (fun _ _ => True) ManagerProcess.new s)
    {caller : Caller} {workerId : Nat} (hpc : s.pc = .forking caller workerId) {address : Nat} (haddress : address ≠ 0)
    {c : WorkerProcess} (hc : Reach (WorkerProcess.step workerId address) (fun _ _ => True) (WorkerProcess.new s.manager) c) :
    c.CleansUpOnce address ↔ c.pc.FindsOwnWorker s.manager workerId := by
  have hwf : ManagerProcess.WellFormed n s := hs.invariant (ManagerProcess.wellFormed_new n) fun _ _ _ hwf _ hstep => hwf.step hstep
  have hslot : (s.manager.slotWorker workerId).isSome := by
    have hshape := hwf.shape
    rw [hpc] at hshape
    cases caller with
    | spawn => exact slotWorker_isSome hshape.1 hshape.2
    | manage => exact slotWorker_isSome hshape.1 hshape.2.1
  have hstate := hc.invariant (I := fun c => WorkerProcess.StateAt s.manager workerId address c c.pc) ⟨rfl, rfl⟩
    fun _ _ _ h _ hstep => stateAt_step hslot h hstep
  cases hpoint : c.pc with
  | forked =>
    rw [hpoint] at hstate
    refine iff_of_false (fun h => ?_) id
    have hworker := h.worker
    rw [hstate.1, hwf.worker] at hworker
    exact absurd hworker (by simp)
  | flagged | numbered =>
    rw [hpoint] at hstate
    obtain ⟨hmanager, hevents⟩ := hstate
    rw [cleansUpOnce_iff_slot (by rw [hmanager]), hmanager, hevents]
    simp only [List.nil_append, deletes_first, exists_eq_right]
    rfl
  | constructed | slotNumbered | running | ran | logged =>
    rw [hpoint] at hstate
    obtain ⟨hevents, hworker, hid, hfinds⟩ := hstate
    refine iff_of_true ((cleansUpOnce_iff_slot hworker address).mpr ⟨address, by rw [hid]; exact hfinds, ?_⟩) trivial
    rw [hevents]
    simp [WorkerEvent.effects, haddress]
  | deleted =>
    rw [hpoint] at hstate
    obtain ⟨hevents, hworker, hid, hfinds⟩ := hstate
    refine iff_of_false (fun h => ?_) id
    obtain ⟨worker, hfound, hlife⟩ := (cleansUpOnce_iff_slot hworker address).mp h
    rw [hid, hfinds] at hfound
    obtain rfl := Option.some.inj hfound
    rw [hevents] at hlife
    have hlen := hlife.length_le
    simp [WorkerEvent.effects, haddress] at hlen

/-- The manager before its first `fork`, with a slot that holds what the memory held. -/
def forkingProcess : ManagerProcess where
  pc := .forking .spawn 0
  manager := (Manager.new.setMaxWorkers 1).allocate [⟨999, 5, 7⟩]
  live := []
  zombies := []
  chldPending := false

/-- The first child in `run`. -/
def runningChild : WorkerProcess where
  pc := .running
  manager := { worker := true, maxWorkers := 1, workersCount := 0, workerId := 0, workerPool := some [⟨0, 0, 64⟩] }
  events := [.construct 64]

/-- A worker that serves is cleaned up once. -/
theorem cleansUpOnce_running : runningChild.CleansUpOnce 64 := by
  have hfork : exec (ManagerProcess.step 1) (fun _ _ => True) ManagerProcess.new [.run, .alloc [⟨999, 5, 7⟩], .run] =
      some forkingProcess := by decide
  have hchild : exec (WorkerProcess.step 0 64) (fun _ _ => True) (WorkerProcess.new forkingProcess.manager) (List.replicate 5 ()) =
      some runningChild := by decide
  exact (cleansUpOnce_iff (reach_of_exec .init hfork) rfl (by decide) (reach_of_exec .init hchild)).mpr trivial

/-- Between the end of its worker and its own end the child deletes the worker again. -/
theorem cleansUpOnce_false : ¬∀ (n : Nat) (s : ManagerProcess) (caller : Caller) (workerId address : Nat) (c : WorkerProcess),
    Reach (ManagerProcess.step n) (fun _ _ => True) ManagerProcess.new s → s.pc = .forking caller workerId → address ≠ 0 →
    Reach (WorkerProcess.step workerId address) (fun _ _ => True) (WorkerProcess.new s.manager) c → c.CleansUpOnce address := by
  intro h
  have hfork : exec (ManagerProcess.step 1) (fun _ _ => True) ManagerProcess.new [.run, .alloc [⟨999, 5, 7⟩], .run] =
      some forkingProcess := by decide
  have hchild : exec (WorkerProcess.step 0 64) (fun _ _ => True) (WorkerProcess.new forkingProcess.manager) (List.replicate 8 ()) =
      some { runningChild with pc := .deleted, events := [.construct 64, .delete 64] } := by decide
  obtain ⟨events, hrun, hlife⟩ :=
    (h 1 forkingProcess .spawn 0 64 _ (reach_of_exec .init hfork) rfl (by decide) (reach_of_exec .init hchild)).life
  have htwice : events = [.construct 64, .delete 64, .delete 64] := (Except.ok.inj hrun).symm
  rw [htwice] at hlife
  exact absurd hlife.length_le (by decide)

end BitzServer
