import BitzServer.Server.Service
import BitzServer.Theorems.Dialogue

/-!
# Runs of the service

The manager, the workers and their clients in any interleaving. A connection is never lost and never served twice, connections are accepted
in the order in which they were made, and each of them is served as if there were no other.
-/

namespace BitzServer

open Runs

/-- Where a connection can be. -/
inductive Place where
  | queued
  | servedBy (pid : Int)
  /-- accepted, and neither served nor closed by the worker -/
  | abandoned
  | closed

namespace Service

/-- The connection that a child serves. -/
def serves (s : Service) (pid : Int) : Option Nat := (s.children pid).bind fun child => child.session.map Session.id

/-- The numbers of the closed connections. -/
def closedIds (s : Service) : List Nat := s.closed.map fun c => c.session.id

def At (s : Service) (id : Nat) : Place → Prop
  | .queued => id ∈ s.queue
  | .servedBy pid => s.serves pid = some id
  | .abandoned => id ∈ s.abandoned
  | .closed => id ∈ s.closedIds

/-- The manager is as if it were alone with children that exit, and those that have not exited are the workers. -/
structure Managed (n : Nat) (s : Service) : Prop where
  reached : Reach (ManagerProcess.step n) (fun _ _ => True) ManagerProcess.new s.manager
  live : ∀ pid, s.children pid ≠ none ↔ pid ∈ s.manager.live

/-- Each connection has its place, and those that wait are the last ones. -/
structure Placed (s : Service) (place : Nat → Place) : Prop where
  at_iff : ∀ id p, s.At id p ↔ id < s.arrivals.length ∧ place id = p
  queue : ∃ accepted ≤ s.arrivals.length, s.queue = List.range' accepted (s.arrivals.length - accepted)
  nodup : s.closedIds.Nodup ∧ s.abandoned.Nodup

end Service

namespace ServiceAux

open Service ManagerProcess

variable {worker : Worker} {n : Nat} {maxWorkerRequests : UInt32} {s s' : Service} {pid : Int} {child : Child}

@[simp]
theorem setChild_self (s : Service) (pid : Int) (child : Option Child) : (s.setChild pid child).children pid = child :=
  Function.update_self _ _ _

theorem setChild_of_ne {q : Int} (h : q ≠ pid) (child : Option Child) : (s.setChild pid child).children q = s.children q :=
  Function.update_of_ne h _ _

/-! ## The manager -/

theorem managed_setChild (hs : Managed n s) (hchild : s.children pid = some child) (child' : Child) {s' : Service}
    (hmanager : s'.manager = s.manager) (hchildren : s'.children = (s.setChild pid (some child')).children) : Managed n s' where
  reached := hmanager ▸ hs.reached
  live q := by
    rw [hmanager, hchildren, ← hs.live q]
    by_cases hq : q = pid
    · subst hq
      rw [setChild_self, hchild]
      simp
    · rw [setChild_of_ne hq]

/-- Only `fork` and `exit` change which children run. -/
theorem live_step {m m' : ManagerProcess} {a : Action} (h : m.step n a = some m') (hexit : ∀ pid, a ≠ .exit pid)
    (hwf : WellFormed n m) : (∃ pid, a = .fork (some pid) ∧ pid ∉ m.live ∧ m'.live = pid :: m.live) ∨
      ((∀ pid, a ≠ .fork (some pid)) ∧ m'.live = m.live) := by
  cases ManagerProcess.step_cases h with
  | fork hpc hpos hfresh => exact .inl ⟨_, rfl, fun hlive => hfresh (List.mem_append_left _ hlive), rfl⟩
  | exit hlive => exact absurd rfl (hexit _)
  | @sigchld order hpc _ horder =>
    obtain ⟨m₂, -, heq, -⟩ := sigchldHandler_spec hwf hpc horder
    exact .inr ⟨nofun, by rw [heq]⟩
  | _ => exact .inr ⟨nofun, rfl⟩

theorem fork_same {a : Action} (h : ∀ pid, a ≠ .fork (some pid)) (children : Int → Option Child) :
    fork maxWorkerRequests children a = children := by
  unfold fork
  split
  · exact absurd rfl (h _)
  · rfl

theorem wellFormed_of_reach {m : ManagerProcess} (h : Reach (ManagerProcess.step n) (fun _ _ => True) ManagerProcess.new m) :
    WellFormed n m :=
  h.invariant (wellFormed_new n) fun _ _ _ hwf _ hstep => hwf.step hstep

theorem managed_step (hs : Managed n s) (h : StepCases worker n maxWorkerRequests s s') : Managed n s' := by
  have hwf := wellFormed_of_reach hs.reached
  cases h with
  | connect sock => exact ⟨hs.reached, hs.live⟩
  | accept hchild => exact managed_setChild hs hchild _ rfl rfl
  | acceptFailed hchild => exact managed_setChild hs hchild _ rfl rfl
  | timeoutFailed hchild => exact managed_setChild hs hchild _ rfl rfl
  | goesOn hchild => exact managed_setChild hs hchild _ rfl rfl
  | returns hchild => exact managed_setChild hs hchild _ rfl rfl
  | @ends pid child m _ hchild _ hexit =>
    refine ⟨.step hs.reached trivial hexit, fun q => ?_⟩
    have hlive : m.live = s.manager.live.erase pid := by
      cases ManagerProcess.step_cases hexit with
      | exit => rfl
    show (s.setChild pid none).children q ≠ none ↔ q ∈ m.live
    rw [hlive]
    by_cases hq : q = pid
    · subst hq
      rw [setChild_self]
      exact ⟨fun hne => absurd rfl hne, fun hmem => absurd hmem hwf.nodup.of_append_left.not_mem_erase⟩
    · rw [setChild_of_ne hq, hs.live q, List.mem_erase_of_ne hq]
  | @manage a m ha hmanager =>
    refine ⟨.step hs.reached trivial hmanager, fun q => ?_⟩
    show fork maxWorkerRequests s.children a q ≠ none ↔ q ∈ m.live
    rcases live_step hmanager ha hwf with ⟨pid, rfl, -, hlive⟩ | ⟨hfork, hlive⟩
    · rw [hlive, fork, List.mem_cons]
      by_cases hq : q = pid
      · subst hq
        rw [Function.update_self]
        simp
      · rw [Function.update_of_ne hq, hs.live q]
        simp [hq]
    · rw [fork_same hfork, hlive, hs.live q]

/-! ## Places -/

variable {place : Nat → Place}

theorem serves_setChild_self (s : Service) (pid : Int) (child : Option Child) :
    (s.setChild pid child).serves pid = child.bind fun child => child.session.map Session.id := by
  rw [serves, setChild_self]

theorem serves_setChild_of_ne {q : Int} (h : q ≠ pid) (child : Option Child) : (s.setChild pid child).serves q = s.serves q := by
  rw [serves, setChild_of_ne h, serves]

theorem serves_of_child (hchild : s.children pid = some child) : s.serves pid = child.session.map Session.id := by
  rw [serves, hchild, Option.bind_some]

/-- A worker that serves no connection takes one from `max_requests`. -/
theorem serves_spend (hchild : s.children pid = some child) (hidle : child.session = none) (q : Int) :
    (s.setChild pid (some (child.spend none none))).serves q = s.serves q := by
  by_cases hq : q = pid
  · subst hq
    rw [serves_setChild_self, serves_of_child hchild, hidle]
    rfl
  · exact serves_setChild_of_ne hq _

/-- Nothing moves. -/
theorem placed_same (hs : Placed s place) (harrivals : s'.arrivals = s.arrivals) (hqueue : s'.queue = s.queue)
    (habandoned : s'.abandoned = s.abandoned) (hclosed : s'.closedIds = s.closedIds) (hserves : ∀ q, s'.serves q = s.serves q) :
    Placed s' place where
  at_iff id p := by
    rw [harrivals, ← hs.at_iff id p]
    cases p with
    | queued => rw [At, At, hqueue]
    | servedBy q => rw [At, At, hserves]
    | abandoned => rw [At, At, habandoned]
    | closed => rw [At, At, hclosed]
  queue := by rw [harrivals, hqueue]; exact hs.queue
  nodup := by rw [hclosed, habandoned]; exact hs.nodup

theorem nodup_concat {l : List Nat} {id : Nat} (hl : l.Nodup) (hid : id ∉ l) : (l ++ [id]).Nodup := by
  refine List.nodup_append.mpr ⟨hl, List.nodup_singleton _, ?_⟩
  intro i hi j hj heq
  rw [List.mem_singleton] at hj
  exact hid (hj ▸ heq ▸ hi)

/-- One connection moves. -/
theorem at_update (hs : Placed s place) {id : Nat} (hid : id < s.arrivals.length) (p₀ : Place)
    (harrivals : s'.arrivals = s.arrivals) (hself : ∀ p, s'.At id p ↔ p = p₀) (hothers : ∀ i, i ≠ id → ∀ p, s'.At i p ↔ s.At i p) :
    ∀ i p, s'.At i p ↔ i < s'.arrivals.length ∧ Function.update place id p₀ i = p := by
  intro i p
  rw [harrivals]
  by_cases hi : i = id
  · subst hi
    rw [hself p, Function.update_self]
    exact ⟨fun h => ⟨hid, h.symm⟩, fun h => h.2.symm⟩
  · rw [hothers i hi p, hs.at_iff i p, Function.update_of_ne hi]

/-- A connection is in one place. -/
theorem place_unique (hs : Placed s place) {id : Nat} {p₀ p : Place} (h₀ : s.At id p₀) (h : s.At id p) : p = p₀ :=
  ((hs.at_iff id p).mp h).2.symm.trans ((hs.at_iff id p₀).mp h₀).2

/-- A connection that a worker serves is closed. -/
theorem placed_close (hs : Placed s place) {id : Nat} (hserves : s.serves pid = some id) (harrivals : s'.arrivals = s.arrivals)
    (hqueue : s'.queue = s.queue) (habandoned : s'.abandoned = s.abandoned) (hclosed : s'.closedIds = s.closedIds ++ [id])
    (hself : s'.serves pid = none) (hothers : ∀ q, q ≠ pid → s'.serves q = s.serves q) : ∃ place', Placed s' place' := by
  have hat : ∀ p, s.At id p → p = .servedBy pid := fun p => @place_unique _ _ hs _ (.servedBy pid) _ hserves
  have hid := ((hs.at_iff id (.servedBy pid)).mp hserves).1
  have hfresh : id ∉ s.closedIds := fun hmem => absurd (hat .closed hmem) nofun
  refine ⟨_, at_update hs hid .closed harrivals (fun p => ?_) (fun i hi p => ?_), ?_, ?_⟩
  · cases p with
    | queued =>
      refine ⟨fun h => ?_, nofun⟩
      rw [At, hqueue] at h
      exact absurd (hat .queued h) nofun
    | servedBy q =>
      refine ⟨fun h => ?_, nofun⟩
      by_cases hq : q = pid
      · subst hq
        exact absurd (hself.symm.trans h) nofun
      · exact absurd (Place.servedBy.inj (hat (.servedBy q) ((hothers q hq).symm.trans h))) hq
    | abandoned =>
      refine ⟨fun h => ?_, nofun⟩
      rw [At, habandoned] at h
      exact absurd (hat .abandoned h) nofun
    | closed => exact ⟨fun _ => rfl, fun _ => by rw [At, hclosed]; simp⟩
  · cases p with
    | queued => rw [At, At, hqueue]
    | servedBy q =>
      by_cases hq : q = pid
      · subst hq
        rw [At, At, hself, hserves]
        exact ⟨nofun, fun h => absurd (Option.some.inj h).symm hi⟩
      · rw [At, At, hothers q hq]
    | abandoned => rw [At, At, habandoned]
    | closed => rw [At, At, hclosed]; simp [hi]
  · rw [harrivals, hqueue]
    exact hs.queue
  · rw [hclosed, habandoned]
    exact ⟨nodup_concat hs.nodup.1 hfresh, hs.nodup.2⟩

/-- The first of the queue is gone, and the others are those behind it. -/
theorem queue_tail {id count accepted : Nat} {queue : List Nat} (hle : accepted ≤ count)
    (hqueue : id :: queue = List.range' accepted (count - accepted)) :
    ∃ accepted' ≤ count, queue = List.range' accepted' (count - accepted') := by
  have hpos : 0 < count - accepted := by
    rw [Nat.pos_iff_ne_zero]
    intro hzero
    rw [hzero] at hqueue
    exact absurd hqueue nofun
  have hle' : accepted + 1 ≤ count := by omega
  refine ⟨accepted + 1, hle', ?_⟩
  have hsucc : count - accepted = count - (accepted + 1) + 1 := by omega
  rw [hsucc, List.range'_succ] at hqueue
  exact (List.cons.inj hqueue).2

theorem placed_step (hm : Managed n s) (hs : Placed s place) (h : StepCases worker n maxWorkerRequests s s') :
    ∃ place', Placed s' place' := by
  obtain ⟨accepted, hle, hqueue⟩ := hs.queue
  cases h with
  | connect sock =>
    refine ⟨Function.update place s.arrivals.length .queued, fun i p => ?_, ⟨accepted, ?_, ?_⟩, hs.nodup⟩
    · have hlength : (s.arrivals ++ [sock]).length = s.arrivals.length + 1 := List.length_append
      show _ ↔ i < (s.arrivals ++ [sock]).length ∧ _
      rw [hlength]
      by_cases hi : i = s.arrivals.length
      · subst hi
        have hnew : ∀ p, ¬s.At s.arrivals.length p := fun p hp => absurd ((hs.at_iff _ p).mp hp).1 (lt_irrefl _)
        rw [Function.update_self]
        cases p with
        | queued => exact ⟨fun _ => ⟨Nat.lt_succ_self _, rfl⟩, fun _ => List.mem_append_right _ (List.mem_singleton_self _)⟩
        | servedBy q => exact ⟨fun hp => absurd hp (hnew (.servedBy q)), fun h => absurd h.2 nofun⟩
        | abandoned => exact ⟨fun hp => absurd hp (hnew .abandoned), fun h => absurd h.2 nofun⟩
        | closed => exact ⟨fun hp => absurd hp (hnew .closed), fun h => absurd h.2 nofun⟩
      · have hlt : i < s.arrivals.length + 1 ↔ i < s.arrivals.length := by omega
        rw [Function.update_of_ne hi, hlt, ← hs.at_iff i p]
        cases p with
        | queued =>
          show i ∈ s.queue ++ [s.arrivals.length] ↔ i ∈ s.queue
          simp [hi]
        | servedBy q => exact Iff.rfl
        | abandoned => exact Iff.rfl
        | closed => exact Iff.rfl
    · exact hle.trans (by simp)
    · show s.queue ++ [s.arrivals.length] = _
      have hlast : s.arrivals.length = accepted + 1 * (s.arrivals.length - accepted) := by omega
      have hlength : (s.arrivals ++ [sock]).length - accepted = s.arrivals.length - accepted + 1 := by
        rw [List.length_append, List.length_singleton]
        omega
      rw [hlength, List.range'_concat, ← hlast, hqueue]
  | @accept pid child id queue sock hchild hidle hfirst hsock hpos =>
    rw [hfirst] at hqueue
    have hid : id ∉ queue := (List.nodup_cons.mp (hqueue ▸ List.nodup_range' : (id :: queue).Nodup)).1
    have hwaits : s.At id .queued := by
      rw [At, hfirst]
      exact List.mem_cons_self
    have hat : ∀ p, s.At id p → p = .queued := fun p => place_unique hs hwaits
    have hfree : s.serves pid = none := by rw [serves_of_child hchild, hidle]; rfl
    refine ⟨_, at_update hs ((hs.at_iff id .queued).mp hwaits).1 (.servedBy pid) rfl (fun p => ?_) (fun i hi p => ?_),
      queue_tail hle hqueue, hs.nodup⟩
    · cases p with
      | queued => exact ⟨fun h => absurd h hid, nofun⟩
      | servedBy q =>
        show (s.setChild pid _).serves q = some id ↔ _
        by_cases hq : q = pid
        · subst hq
          rw [serves_setChild_self]
          exact ⟨fun _ => rfl, fun _ => rfl⟩
        · rw [serves_setChild_of_ne hq]
          exact ⟨fun h => absurd (hat (.servedBy q) h) nofun, fun h => absurd (Place.servedBy.inj h) hq⟩
      | abandoned => exact ⟨fun h => absurd (hat .abandoned h) nofun, nofun⟩
      | closed => exact ⟨fun h => absurd (hat .closed h) nofun, nofun⟩
    · cases p with
      | queued =>
        show i ∈ queue ↔ i ∈ s.queue
        rw [hfirst, List.mem_cons]
        simp [hi]
      | servedBy q =>
        show (s.setChild pid _).serves q = some i ↔ s.serves q = some i
        by_cases hq : q = pid
        · subst hq
          rw [serves_setChild_self, hfree]
          exact ⟨fun h => absurd (Option.some.inj h).symm hi, nofun⟩
        · rw [serves_setChild_of_ne hq]
      | abandoned => exact Iff.rfl
      | closed => exact Iff.rfl
  | @acceptFailed pid child hchild hidle hpos =>
    exact ⟨place, placed_same hs rfl rfl rfl rfl (serves_spend hchild hidle)⟩
  | @timeoutFailed pid child id queue hchild hidle hfirst hpos =>
    rw [hfirst] at hqueue
    have hid : id ∉ queue := (List.nodup_cons.mp (hqueue ▸ List.nodup_range' : (id :: queue).Nodup)).1
    have hwaits : s.At id .queued := by
      rw [At, hfirst]
      exact List.mem_cons_self
    have hat : ∀ p, s.At id p → p = .queued := fun p => place_unique hs hwaits
    have hserves : ∀ q, (s.setChild pid (some (child.spend none none))).serves q = s.serves q := serves_spend hchild hidle
    refine ⟨_, at_update hs ((hs.at_iff id .queued).mp hwaits).1 .abandoned rfl (fun p => ?_) (fun i hi p => ?_),
      queue_tail hle hqueue, hs.nodup.1, nodup_concat hs.nodup.2 fun hmem => absurd (hat .abandoned hmem) nofun⟩
    · cases p with
      | queued => exact ⟨fun h => absurd h hid, nofun⟩
      | servedBy q => exact ⟨fun h => absurd (hat (.servedBy q) ((hserves q).symm.trans h)) nofun, nofun⟩
      | abandoned => exact ⟨fun _ => rfl, fun _ => List.mem_append_right _ (List.mem_singleton_self _)⟩
      | closed => exact ⟨fun h => absurd (hat .closed h) nofun, nofun⟩
    · cases p with
      | queued =>
        show i ∈ queue ↔ i ∈ s.queue
        rw [hfirst, List.mem_cons]
        simp [hi]
      | servedBy q =>
        show (s.setChild pid _).serves q = some i ↔ s.serves q = some i
        rw [hserves q]
      | abandoned =>
        show i ∈ s.abandoned ++ [id] ↔ i ∈ s.abandoned
        simp [hi]
      | closed => exact Iff.rfl
  | @goesOn pid child session pass sock hchild hsession =>
    refine ⟨place, placed_same hs rfl rfl rfl rfl fun q => ?_⟩
    by_cases hq : q = pid
    · subst hq
      rw [serves_setChild_self, serves_of_child hchild, hsession]
      rfl
    · exact serves_setChild_of_ne hq _
  | @returns pid child session pass sock hchild hsession =>
    have hserves : s.serves pid = some session.id := by rw [serves_of_child hchild, hsession]; rfl
    refine placed_close hs hserves rfl rfl rfl ?_ ?_ fun q hq => ?_
    · exact List.map_append
    · exact serves_setChild_self s pid _
    · exact serves_setChild_of_ne hq _
  | @ends pid child m returned hchild =>
    cases hsession : child.session with
    | none =>
      refine ⟨place, placed_same hs rfl rfl rfl ?_ fun q => ?_⟩
      · rw [closedIds, Option.map_none, Option.toList_none, List.append_nil, closedIds]
      · show (s.setChild pid none).serves q = s.serves q
        by_cases hq : q = pid
        · subst hq
          rw [serves_setChild_self, serves_of_child hchild, hsession]
          rfl
        · exact serves_setChild_of_ne hq _
    | some session =>
      have hserves : s.serves pid = some session.id := by rw [serves_of_child hchild, hsession]; rfl
      refine placed_close hs hserves rfl rfl rfl ?_ ?_ fun q hq => ?_
      · exact List.map_append
      · exact serves_setChild_self s pid _
      · exact serves_setChild_of_ne hq _
  | @manage a m ha hmanager =>
    refine ⟨place, placed_same hs rfl rfl rfl rfl fun q => ?_⟩
    show ((fork maxWorkerRequests s.children a q).bind fun child => child.session.map Session.id) = s.serves q
    rcases live_step hmanager ha (wellFormed_of_reach hm.reached) with ⟨pid, rfl, hfresh, -⟩ | ⟨hfork, -⟩
    · rw [fork]
      by_cases hq : q = pid
      · subst hq
        have hnone : s.children q = none := by
          by_contra hne
          exact hfresh ((hm.live q).mp hne)
        rw [Function.update_self, serves, hnone]
        rfl
      · rw [Function.update_of_ne hq, serves]
    · rw [fork_same hfork, serves]

end ServiceAux

open Service ServiceAux

/-- In every run of the service the manager runs as it does when children only exit, the children that have not exited are the workers,
every connection that was ever made is in exactly one place, none is closed or abandoned twice, and those that wait are the last ones,
in the order in which they were made. -/
theorem service_places {worker : Worker} {n : Nat} {maxWorkerRequests : UInt32} {s : Service}
    (h : Reach (Service.step worker n maxWorkerRequests) (fun _ _ => True) Service.new s) :
    Reach (ManagerProcess.step n) (fun _ _ => True) ManagerProcess.new s.manager ∧
      (∀ pid, s.children pid ≠ none ↔ pid ∈ s.manager.live) ∧
      (∀ id < s.arrivals.length, ∃! place, s.At id place) ∧ (s.closedIds.Nodup ∧ s.abandoned.Nodup) ∧
      ∃ accepted ≤ s.arrivals.length, s.queue = List.range' accepted (s.arrivals.length - accepted) := by
  have hinit : Managed n Service.new ∧ ∃ place, Placed Service.new place := by
    refine ⟨⟨.init, fun pid => ⟨fun hne => absurd rfl hne, nofun⟩⟩, fun _ => .queued, ⟨fun id p => ?_, ⟨0, Nat.le_refl 0, rfl⟩,
      List.nodup_nil, List.nodup_nil⟩⟩
    have hnone : ¬Service.new.At id p := by
      cases p with
      | queued => exact nofun
      | servedBy pid => exact nofun
      | abandoned => exact nofun
      | closed => exact nofun
    exact ⟨fun hp => absurd hp hnone, fun hlt => absurd hlt.1 (Nat.not_lt_zero id)⟩
  obtain ⟨hmanaged, place, hplaced⟩ := h.invariant (I := fun s => Managed n s ∧ ∃ place, Placed s place) hinit
    fun s a s' ⟨hm, place, hp⟩ _ hstep =>
      ⟨managed_step hm (Service.step_cases hstep), placed_step hm hp (Service.step_cases hstep)⟩
  refine ⟨hmanaged.reached, hmanaged.live, fun id hid => ⟨place id, ?_, fun p hp => ?_⟩, hplaced.nodup, hplaced.queue⟩
  · exact (hplaced.at_iff id _).mpr ⟨hid, rfl⟩
  · exact ((hplaced.at_iff id p).mp hp).2.symm

/-- The only worker cannot set the timeout of its first connection, and is killed in the second one while the third one waits. -/
def killedWorker : List ServiceAction :=
  [.manage .run, .manage (.alloc [⟨0, 0, 0⟩]), .manage .run, .manage (.fork (some 5)), .connect (Conn.ofInput []), .timeoutFailed 5,
    .connect (Conn.ofInput []), .accept 5, .connect (Conn.ofInput []), .kill 5]

theorem service_places_killed : ∃ s : Service, s.queue = [2] ∧ s.abandoned = [0] ∧ s.closedIds = [1] ∧
    Reach (ManagerProcess.step 1) (fun _ _ => True) ManagerProcess.new s.manager ∧
    (∀ pid, s.children pid ≠ none ↔ pid ∈ s.manager.live) ∧
    (∀ id < s.arrivals.length, ∃! place, s.At id place) ∧ (s.closedIds.Nodup ∧ s.abandoned.Nodup) ∧
    ∃ accepted ≤ s.arrivals.length, s.queue = List.range' accepted (s.arrivals.length - accepted) := by
  obtain ⟨s, hexec, hqueue, habandoned, hclosed⟩ : ∃ s,
      exec (Service.step (Worker.new [] []) 1 2) (fun _ _ => True) Service.new killedWorker = some s ∧
        s.queue = [2] ∧ s.abandoned = [0] ∧ s.closedIds = [1] := ⟨_, rfl, rfl, rfl, rfl⟩
  exact ⟨s, hqueue, habandoned, hclosed, service_places (reach_of_exec .init hexec)⟩

/-! ## Sessions -/

/-- The passes of the connection are the first ones of `serve_client` on the stream that the client has made, which goes on from here. -/
structure Session.Follows (worker : Worker) (arrivals : List Conn) (session : Session) (left : UInt32) : Prop where
  arrived : arrivals[session.id]? = some session.start
  counts : CountsDown left session.budget session.events
  resumes : ∀ fuel, (worker.serveClientPasses (session.events.length + fuel) session.budget).run session.start =
    ((worker.serveClientPasses fuel left).run session.sock).map fun r => ((r.1.1, session.events ++ r.1.2), r.2)

/-- What `serve_client` alone does with the stream that the client has made begins with what has been done in the connection, and is it
when `serve_client` has returned. Until then it goes on from the stream as it is in the connection, with all that is unread there. -/
def Session.Alone (worker : Worker) (arrivals : List Conn) (session : Session) (returned : Option UInt32) : Prop :=
  arrivals[session.id]? = some session.start ∧ ∃ left events sock,
    (worker.serveClientPasses UInt32.size session.budget).run session.start = .ok ((left, events), sock) ∧
      session.events <+: events ∧ session.sock.sent <+: sock.sent ∧
      (∀ x ∈ returned, x = left ∧ session.events = events ∧ session.sock = sock) ∧
      (returned = none → ∃ fuel budget later, CountsDown budget session.budget session.events ∧
        (worker.serveClientPasses fuel budget).run session.sock = .ok ((left, later), sock) ∧ events = session.events ++ later)

namespace ServiceAux

open Feed Worker RequestBudgetAux DialogueAux

variable {worker : Worker} {n : Nat} {maxWorkerRequests : UInt32} {s s' : Service}

/-- After a pass that goes on, `serve_client` does what it does behind the pass. -/
theorem serveClientPasses_behind {pass : Pass} {sock sock' : Conn} {left : UInt32} (hpass : worker.servePass.run sock = .ok (pass, sock'))
    (hpos : 0 < left - 1) (hgoes : pass.goesOn = true) (fuel : Nat) : (worker.serveClientPasses (fuel + 1) left).run sock =
      ((worker.serveClientPasses fuel (left - 1)).run sock').map fun r =>
        ((r.1.1, { maxRequests := left, pass := some pass } :: r.1.2), r.2) := by
  rw [Pass.goesOn, Bool.and_eq_true, Option.isSome_iff_exists] at hgoes
  obtain ⟨⟨response, hresponse⟩, hkeeps⟩ := hgoes
  rw [serveClientPasses, run_bind_of_ok hpass]
  simp only [hresponse]
  rw [if_pos ⟨hpos, hkeeps⟩, StateT.run_bind]
  cases (worker.serveClientPasses fuel (left - 1)).run sock' with
  | error e => rfl
  | ok r => rfl

theorem follows_accept {arrivals : List Conn} {id : Nat} {sock : Conn} (hsock : arrivals[id]? = some sock) (left : UInt32) :
    (Session.accept id sock left).Follows worker arrivals left where
  arrived := hsock
  counts := rfl
  resumes fuel := by
    have hlength : (Session.accept id sock left).events.length + fuel = fuel := Nat.zero_add fuel
    rw [hlength]
    show (worker.serveClientPasses fuel left).run sock = ((worker.serveClientPasses fuel left).run sock).map fun r => ((r.1.1, [] ++ r.1.2), r.2)
    cases (worker.serveClientPasses fuel left).run sock with
    | error e => rfl
    | ok r => rfl

/-- A pass that goes on. -/
theorem Follows.push {arrivals : List Conn} {session : Session} {left : UInt32} (h : session.Follows worker arrivals left) {pass : Pass}
    {sock : Conn} (hleft : 0 < left) (hpass : worker.servePass.run session.sock = .ok (pass, sock)) (hpos : 0 < left - 1)
    (hgoes : pass.goesOn = true) : (session.push { maxRequests := left, pass := some pass } sock).Follows worker arrivals (left - 1) where
  arrived := h.arrived
  counts := h.counts.append ⟨rfl, hleft, rfl⟩
  resumes fuel := by
    have hlength : (session.push { maxRequests := left, pass := some pass } sock).events.length + fuel =
        session.events.length + (fuel + 1) := by
      rw [Session.push, List.length_append, List.length_singleton]
      omega
    rw [hlength]
    refine (h.resumes (fuel + 1)).trans ?_
    rw [serveClientPasses_behind hpass hpos hgoes]
    show _ = ((worker.serveClientPasses fuel (left - 1)).run sock).map fun r => ((r.1.1, session.events ++ [_] ++ r.1.2), r.2)
    cases (worker.serveClientPasses fuel (left - 1)).run sock with
    | error e => rfl
    | ok r => simp [Except.map]

/-- The passes that `serve_client` may make. -/
theorem Follows.fuel {arrivals : List Conn} {session : Session} {left : UInt32} (h : session.Follows worker arrivals left) :
    ∃ fuel, UInt32.size = session.events.length + (fuel + 1) ∧ left.toNat ≤ fuel + 1 := by
  have hlength := h.counts.length
  have hlt := session.budget.toNat_lt_size
  exact ⟨UInt32.size - session.events.length - 1, by omega, by omega⟩

/-- A pass that does not go on. -/
theorem Follows.last {arrivals : List Conn} {session : Session} {left : UInt32} (h : session.Follows worker arrivals left) {pass : Pass}
    {sock : Conn} (hpass : worker.servePass.run session.sock = .ok (pass, sock)) (hlast : left - 1 = 0 ∨ pass.goesOn = false) :
    (session.push { maxRequests := left, pass := some pass } sock).Alone worker arrivals (some (left - 1)) := by
  obtain ⟨fuel, hsize, -⟩ := Follows.fuel h
  refine ⟨h.arrived, left - 1, session.events ++ [{ maxRequests := left, pass := some pass }], sock, ?_, List.prefix_refl _,
    List.prefix_refl _, ?_, nofun⟩
  · show (worker.serveClientPasses UInt32.size session.budget).run session.start = _
    rw [hsize, h.resumes, serveClientPasses_last hpass hlast]
    rfl
  · rintro x ⟨⟩
    exact ⟨rfl, rfl, rfl⟩

/-- A connection in which `serve_client` has not returned. -/
theorem Follows.alone {reqmod respmod : List Handler} {arrivals : List Conn} {session : Session} {left : UInt32}
    (h : session.Follows (Worker.new reqmod respmod) arrivals left) (hpos : 0 < left) :
    session.Alone (Worker.new reqmod respmod) arrivals none := by
  obtain ⟨fuel, hsize, hfuel⟩ := Follows.fuel h
  obtain ⟨l, event, events, sock, hrun, -, -⟩ := serveClientPasses_counts reqmod respmod (fuel + 1) left session.sock hpos hfuel
  have hgrows : session.sock.sent <+: sock.sent :=
    (serveClientPasses_online (Worker.new reqmod respmod) [] (fuel + 1) left).grows session.sock _ sock hrun
  refine ⟨h.arrived, l, session.events ++ event :: events, sock, ?_, List.prefix_append _ _, hgrows, nofun,
    fun _ => ⟨fuel + 1, left, event :: events, h.counts, hrun, rfl⟩⟩
  rw [hsize, h.resumes, hrun]
  rfl

theorem Alone.arrive {arrivals : List Conn} {session : Session} {returned : Option UInt32} (h : session.Alone worker arrivals returned)
    (sock : Conn) : session.Alone worker (arrivals ++ [sock]) returned :=
  ⟨by rw [List.getElem?_append_left (List.getElem?_eq_some_iff.mp h.1).1]; exact h.1, h.2⟩

theorem Follows.arrive {arrivals : List Conn} {session : Session} {left : UInt32} (h : session.Follows worker arrivals left)
    (sock : Conn) : session.Follows worker (arrivals ++ [sock]) left where
  arrived := by
    rw [List.getElem?_append_left (List.getElem?_eq_some_iff.mp h.arrived).1]
    exact h.arrived
  counts := h.counts
  resumes := h.resumes

end ServiceAux

/-- The workers have been given `maxWorkerRequests` requests each, and the connections have been served alone. -/
structure Service.Serving (worker : Worker) (maxWorkerRequests : UInt32) (s : Service) : Prop where
  counts : ∀ pid child, s.children pid = some child → CountsDown child.maxRequests maxWorkerRequests child.events
  follows : ∀ pid child, s.children pid = some child → ∀ session ∈ child.session,
    0 < child.maxRequests ∧ session.Follows worker s.arrivals child.maxRequests
  closed : ∀ c ∈ s.closed, c.session.Alone worker s.arrivals c.returned
  ended : ∀ e ∈ s.ended, CountsDown e.child.maxRequests maxWorkerRequests e.child.events ∧ (e.returned = true → e.child.maxRequests = 0)

namespace ServiceAux

variable {n : Nat} {maxWorkerRequests : UInt32} {s s' : Service}

/-- A worker takes one from `max_requests`, and the others go on. -/
theorem serving_setChild {worker : Worker} (hs : Serving worker maxWorkerRequests s) (pid : Int) {child : Child}
    (hcounts : CountsDown child.maxRequests maxWorkerRequests child.events)
    (hfollows : ∀ session ∈ child.session, 0 < child.maxRequests ∧ session.Follows worker s.arrivals child.maxRequests) :
    Serving worker maxWorkerRequests (s.setChild pid (some child)) where
  counts q c hc := by
    by_cases hq : q = pid
    · subst hq
      rw [setChild_self] at hc
      exact Option.some.inj hc ▸ hcounts
    · rw [setChild_of_ne hq] at hc
      exact hs.counts q c hc
  follows q c hc := by
    by_cases hq : q = pid
    · subst hq
      rw [setChild_self] at hc
      exact Option.some.inj hc ▸ hfollows
    · rw [setChild_of_ne hq] at hc
      exact hs.follows q c hc
  closed := hs.closed
  ended := hs.ended

theorem serving_step {reqmod respmod : List Handler} (hs : Serving (Worker.new reqmod respmod) maxWorkerRequests s)
    (h : StepCases (Worker.new reqmod respmod) n maxWorkerRequests s s') : Serving (Worker.new reqmod respmod) maxWorkerRequests s' := by
  cases h with
  | connect sock =>
    exact ⟨hs.counts, fun pid child hchild session hsession => (hs.follows pid child hchild session hsession).imp_right (Follows.arrive · sock),
      fun c hc => Alone.arrive (hs.closed c hc) sock, hs.ended⟩
  | @accept pid child id queue sock hchild hidle hqueue hsock hpos =>
    have hfollows : ∀ session ∈ some (Session.accept id sock child.maxRequests),
        0 < child.maxRequests ∧ session.Follows (Worker.new reqmod respmod) s.arrivals child.maxRequests := by
      rintro session ⟨⟩
      exact ⟨hpos, follows_accept hsock _⟩
    have hcounts : CountsDown ({ child with session := some (Session.accept id sock child.maxRequests) } : Child).maxRequests
        maxWorkerRequests child.events := hs.counts pid child hchild
    have hset := @serving_setChild _ _ _ hs pid { child with session := some (Session.accept id sock child.maxRequests) } hcounts hfollows
    exact ⟨hset.counts, hset.follows, hset.closed, hset.ended⟩
  | @acceptFailed pid child hchild hidle hpos =>
    exact serving_setChild hs pid ((hs.counts pid child hchild).append ⟨rfl, hpos, rfl⟩) nofun
  | @timeoutFailed pid child id queue hchild hidle hqueue hpos =>
    have hset := @serving_setChild _ _ _ hs pid (child.spend none none) ((hs.counts pid child hchild).append ⟨rfl, hpos, rfl⟩) nofun
    exact ⟨hset.counts, hset.follows, hset.closed, hset.ended⟩
  | @goesOn pid child session pass sock hchild hsession hpass hpos hgoes =>
    obtain ⟨hleft, hfollows⟩ := hs.follows pid child hchild session hsession
    refine serving_setChild hs pid ((hs.counts pid child hchild).append ⟨rfl, hleft, rfl⟩) ?_
    rintro _ ⟨⟩
    exact ⟨hpos, Follows.push hfollows hleft hpass hpos hgoes⟩
  | @returns pid child session pass sock hchild hsession hpass hlast =>
    obtain ⟨hleft, hfollows⟩ := hs.follows pid child hchild session hsession
    have hcounts : CountsDown (child.spend pass none).maxRequests maxWorkerRequests (child.spend pass none).events :=
      (hs.counts pid child hchild).append ⟨rfl, hleft, rfl⟩
    have hset := serving_setChild hs pid hcounts nofun
    refine ⟨hset.counts, hset.follows, fun c hc => ?_, hset.ended⟩
    rcases List.mem_append.mp hc with hc | hc
    · exact hs.closed c hc
    · obtain rfl := List.mem_singleton.mp hc
      exact Follows.last hfollows hpass hlast
  | @ends pid child m returned hchild hreturned hexit =>
    have hkept : ∀ q c, (s.setChild pid none).children q = some c → s.children q = some c := by
      intro q c hc
      by_cases hq : q = pid
      · subst hq
        rw [setChild_self] at hc
        exact absurd hc nofun
      · rwa [setChild_of_ne hq] at hc
    refine ⟨fun q c hc => hs.counts q c (hkept q c hc), fun q c hc => hs.follows q c (hkept q c hc), fun c hc => ?_, fun e he => ?_⟩
    · rcases List.mem_append.mp hc with hc | hc
      · exact hs.closed c hc
      · obtain ⟨session, hsession, rfl⟩ := Option.map_eq_some_iff.mp (Option.mem_toList.mp hc)
        obtain ⟨hleft, hfollows⟩ := hs.follows pid child hchild session hsession
        exact Follows.alone hfollows hleft
    · rcases List.mem_append.mp he with he | he
      · exact hs.ended e he
      · obtain rfl := List.mem_singleton.mp he
        exact ⟨hs.counts pid child hchild, fun h => (hreturned h).2⟩
  | @manage a m ha hmanager =>
    have hforked : ∀ q c, fork maxWorkerRequests s.children a q = some c → s.children q = some c ∨ c = Child.new maxWorkerRequests := by
      intro q c hc
      unfold fork at hc
      split at hc
      case h_1 pid =>
        by_cases hq : q = pid
        · subst hq
          rw [Function.update_self] at hc
          exact .inr (Option.some.inj hc).symm
        · rw [Function.update_of_ne hq] at hc
          exact .inl hc
      case h_2 => exact .inl hc
    refine ⟨fun q c hc => ?_, fun q c hc => ?_, hs.closed, hs.ended⟩
    · rcases hforked q c hc with hold | rfl
      · exact hs.counts q c hold
      · exact rfl
    · rcases hforked q c hc with hold | rfl
      · exact hs.follows q c hold
      · exact nofun

end ServiceAux

/-- In every run of the service, whatever its clients, workers and signals do in between: what is done in a connection is what
`serve_client` alone does with it, or the beginning of it, and a worker takes as many passes as it was given, unless it is killed before. -/
theorem service_alone {reqmod respmod : List Handler} {n : Nat} {maxWorkerRequests : UInt32} {s : Service}
    (h : Reach (Service.step (Worker.new reqmod respmod) n maxWorkerRequests) (fun _ _ => True) Service.new s) :
    (∀ pid child session, s.children pid = some child → child.session = some session →
      session.Alone (Worker.new reqmod respmod) s.arrivals none) ∧
      (∀ c ∈ s.closed, c.session.Alone (Worker.new reqmod respmod) s.arrivals c.returned) ∧
      (∀ pid child, s.children pid = some child → child.events.length + child.maxRequests.toNat = maxWorkerRequests.toNat) ∧
      ∀ e ∈ s.ended, e.child.events.length ≤ maxWorkerRequests.toNat ∧
        (e.returned = true → e.child.events.length = maxWorkerRequests.toNat) := by
  have hs : Serving (Worker.new reqmod respmod) maxWorkerRequests s := by
    refine h.invariant (I := Serving (Worker.new reqmod respmod) maxWorkerRequests) ?_
      fun _ _ _ hs _ hstep => serving_step hs (Service.step_cases hstep)
    exact ⟨fun _ _ => nofun, fun _ _ => nofun, nofun, nofun⟩
  refine ⟨fun pid child session hchild hsession => ?_, hs.closed, fun pid child hchild => (hs.counts pid child hchild).length, fun e he => ?_⟩
  · obtain ⟨hleft, hfollows⟩ := hs.follows pid child hchild session hsession
    exact Follows.alone hfollows hleft
  · obtain ⟨hcounts, hreturned⟩ := hs.ended e he
    have hlength := hcounts.length
    refine ⟨by omega, fun hret => ?_⟩
    rw [hreturned hret] at hlength
    exact hlength

theorem service_alone_killed : ∃ s : Service, s.ended.length = 1 ∧
    (∀ pid child session, s.children pid = some child → child.session = some session →
      session.Alone (Worker.new [] []) s.arrivals none) ∧
    (∀ c ∈ s.closed, c.session.Alone (Worker.new [] []) s.arrivals c.returned) ∧
    (∀ pid child, s.children pid = some child → child.events.length + child.maxRequests.toNat = (2 : UInt32).toNat) ∧
    ∀ e ∈ s.ended, e.child.events.length ≤ (2 : UInt32).toNat ∧ (e.returned = true → e.child.events.length = (2 : UInt32).toNat) := by
  obtain ⟨s, hexec, hended⟩ : ∃ s, exec (Service.step (Worker.new [] []) 1 2) (fun _ _ => True) Service.new killedWorker = some s ∧
      s.ended.length = 1 := ⟨_, rfl, rfl⟩
  exact ⟨s, hended, service_alone (reach_of_exec .init hexec)⟩

end BitzServer
