import BitzServer.Server.Termination

/-!
# The manager is shut down once

`termination_handler` runs for a second signal that is delivered before the one it has raised itself, and then uses the manager that it
has deleted.
-/

namespace BitzServer

open Runs

namespace ServerProcess

/-- The manager has been shut down and deleted at most once, and not used behind that. -/
structure ShutDownOnce (s : ServerProcess) : Prop where
  shutdown : s.uses.countP (fun use => use.call = .shutdown) ≤ 1
  delete : s.uses.countP (fun use => use.call = .delete) ≤ 1
  pointer : ∀ use ∈ s.uses, use.pointer = .manager

/-- Once the handler has run with a manager, a signal is delivered only if its disposition is the default. -/
def DeliversReraised (s : ServerProcess) : ServerAction → Prop
  | .deliver sig => s.terminating = true → s.manager ≠ .null → sig ∈ s.defaults
  | _ => True

instance (s : ServerProcess) : ∀ a, Decidable (s.DeliversReraised a)
  | .deliver sig => inferInstanceAs (Decidable (s.terminating = true → s.manager ≠ .null → sig ∈ s.defaults))
  | .start | .arrive _ => inferInstanceAs (Decidable True)

/-- What has been done with the manager, by its pointer. -/
abbrev UsedAt (terminating : Bool) (uses : List ManagerUse) : ManagerPointer → Prop
  | .null => uses = []
  | .manager => uses = [] ∧ terminating = false
  | .dangling => uses = [⟨.shutdown, .manager⟩, ⟨.delete, .manager⟩] ∧ terminating = true

end ServerProcess

namespace ManagerShutdownAux

open ServerProcess

/-- The handler uses a manager that is there, or none. -/
theorem usedAt_handler {s : ServerProcess} (hused : UsedAt s.terminating s.uses s.manager)
    (hfirst : s.terminating = true → s.manager = .null) (sig : TerminationSignal) :
    UsedAt (s.terminationHandler sig).terminating (s.terminationHandler sig).uses (s.terminationHandler sig).manager := by
  obtain ⟨hterm, hmanager, huses⟩ := terminationHandler_spec s sig
  rw [hterm, hmanager, huses]
  cases hpointer : s.manager with
  | null =>
    rw [hpointer] at hused
    rw [cleanUpManager_of_null hpointer, hpointer]
    exact hused
  | manager =>
    rw [hpointer] at hused
    rw [cleanUpManager_of_ne_null (by simp [hpointer]), hused.1, hpointer]
    exact ⟨rfl, rfl⟩
  | dangling =>
    -- the manager has been deleted by a handler
    rw [hpointer] at hused hfirst
    exact absurd (hfirst hused.2) (by simp)

/-- As long as the raised signals come first, a manager that is there has not been used, and one that is gone has been used once. -/
theorem usedAt_step {s s' : ServerProcess} {a : ServerAction} (hused : UsedAt s.terminating s.uses s.manager)
    (hok : s.DeliversReraised a) (h : s.step a = some s') : UsedAt s'.terminating s'.uses s'.manager := by
  cases step_cases h with
  | start hnull hterm =>
    rw [hnull] at hused
    exact ⟨hused, hterm⟩
  | arrive sig => exact hused
  | exit hdefault => exact hused
  | @handle sig hdefault =>
    exact usedAt_handler (s := { s with pending := s.pending.erase sig }) hused
      (fun hterm => by_contra fun hne => hdefault (hok hterm hne)) sig

theorem usedAt_of_reach {s : ServerProcess} (h : Reach step DeliversReraised new s) : UsedAt s.terminating s.uses s.manager :=
  h.invariant (I := fun s => UsedAt s.terminating s.uses s.manager) rfl fun _ _ _ hused hok hstep => usedAt_step hused hok hstep

theorem shutDownOnce_of_usedAt {s : ServerProcess} (h : UsedAt s.terminating s.uses s.manager) : s.ShutDownOnce := by
  have huses : s.uses = [] ∨ s.uses = [⟨.shutdown, .manager⟩, ⟨.delete, .manager⟩] := by
    cases hpointer : s.manager with
    | null =>
      rw [hpointer] at h
      exact .inl h
    | manager =>
      rw [hpointer] at h
      exact .inl h.1
    | dangling =>
      rw [hpointer] at h
      exact .inr h.1
  rcases huses with huses | huses <;> exact ⟨by simp [huses], by simp [huses], by simp [huses]⟩

/-- What the handler does comes behind what has been done. -/
theorem uses_handler_extends (s : ServerProcess) (sig : TerminationSignal) : s.uses <+: (s.terminationHandler sig).uses := by
  rw [(terminationHandler_spec s sig).2.2]
  by_cases hnull : s.manager = .null
  · have huses : s.cleanUpManager.uses = s.uses := by rw [cleanUpManager_of_null hnull]
    exact huses.symm ▸ List.prefix_refl _
  · rw [cleanUpManager_of_ne_null hnull]
    exact List.prefix_append _ _

theorem mem_uses_handler {s : ServerProcess} (hnull : s.manager ≠ .null) (sig : TerminationSignal) :
    ⟨.shutdown, s.manager⟩ ∈ (s.terminationHandler sig).uses := by
  rw [(terminationHandler_spec s sig).2.2, cleanUpManager_of_ne_null hnull]
  simp

/-- What has been done stays done. -/
theorem uses_extends {s s' : ServerProcess} {a : ServerAction} (h : s.step a = some s') : s.uses <+: s'.uses := by
  cases step_cases h with
  | start | arrive | exit => exact List.prefix_refl _
  | @handle sig _ => exact uses_handler_extends { s with pending := s.pending.erase sig } sig

theorem shutDownOnce_of_step {s s' : ServerProcess} {a : ServerAction} (h : s.step a = some s') (h' : s'.ShutDownOnce) :
    s.ShutDownOnce := by
  have hsub := (uses_extends h).sublist
  exact ⟨Nat.le_trans hsub.countP_le h'.shutdown, Nat.le_trans hsub.countP_le h'.delete,
    fun use huse => h'.pointer use (hsub.subset huse)⟩

/-- A step that uses the manager at most once delivers a raised signal, once a manager has been used. -/
theorem deliversReraised_of_once {s s' : ServerProcess} {a : ServerAction} (hused : UsedAt s.terminating s.uses s.manager)
    (h : s.step a = some s') (h' : s'.ShutDownOnce) : s.DeliversReraised a := by
  cases step_cases h with
  | start | arrive => trivial
  | exit hdefault => exact fun _ _ => hdefault
  | @handle sig hdefault =>
    intro hterm hnull
    have hdangling : s.manager = .dangling := by
      cases hpointer : s.manager with
      | null => exact absurd hpointer hnull
      | manager =>
        rw [hpointer, hterm] at hused
        exact absurd hused.2 (by simp)
      | dangling => rfl
    have hmem := mem_uses_handler (s := { s with pending := s.pending.erase sig }) hnull sig
    exact absurd (hdangling.symm.trans (h'.pointer _ hmem)) (by simp)

end ManagerShutdownAux

open ServerProcess ManagerShutdownAux

/-- A run has shut down the manager at most once, and not used it behind that, if and only if in the run, once the handler has run with
a manager, the only signals delivered are those with the default disposition. -/
theorem shutDownOnce_iff {s : ServerProcess} (h : Reach step (fun _ _ => True) new s) :
    s.ShutDownOnce ↔ Reach step DeliversReraised new s := by
  constructor
  · induction h with
    | init => exact fun _ => .init
    | step _ _ hstep ih =>
      intro honce
      have hreach := ih (shutDownOnce_of_step hstep honce)
      exact .step hreach (deliversReraised_of_once (usedAt_of_reach hreach) hstep honce) hstep
  · exact fun hreach => shutDownOnce_of_usedAt (usedAt_of_reach hreach)

/-- The end of a process that has been sent one signal. -/
def terminatedProcess : ServerProcess where
  manager := .dangling
  terminating := true
  pending := []
  defaults := [.sigterm]
  uses := [⟨.shutdown, .manager⟩, ⟨.delete, .manager⟩]
  ended := true

/-- After one signal, the manager has been shut down once. -/
theorem shutDownOnce_sigterm : terminatedProcess.ShutDownOnce := by
  have hexec : exec step DeliversReraised new [.start, .arrive .sigterm, .deliver .sigterm, .deliver .sigterm] =
      some terminatedProcess := by decide
  have hreach := reach_of_exec .init hexec
  exact (shutDownOnce_iff (hreach.mono fun _ _ _ => trivial)).mpr hreach

/-- `SIGINT` while `SIGTERM` is handled: the manager is shut down and deleted twice. -/
theorem shutDownOnce_false : ¬∀ s : ServerProcess, Reach step (fun _ _ => True) new s → s.ShutDownOnce := by
  intro h
  have hexec : ∃ s, exec step (fun _ _ => True) new [.start, .arrive .sigterm, .arrive .sigint, .deliver .sigterm, .deliver .sigint] =
      some s ∧ s.uses.countP (fun use => use.call = .delete) = 2 := ⟨_, rfl, by decide⟩
  obtain ⟨s, hexec, htwice⟩ := hexec
  have honce := (h s (reach_of_exec .init hexec)).delete
  rw [htwice] at honce
  exact absurd honce (by decide)

end BitzServer
