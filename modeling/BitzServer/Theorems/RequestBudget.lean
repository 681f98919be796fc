import BitzServer.Server.Worker

/-!
# The request budget of a worker

`max_requests` is decremented in three places of two loops. Each pass of the loops that takes one from it finds it above 0, and a
worker ends when it has taken as many as it was given.
-/

namespace BitzServer

/-- What a pass of the loops takes one from `max_requests` for. -/
inductive Expense where
  | acceptFailed
  | timedOut
  | responded
  deriving DecidableEq

/-- What the pass was. -/
def Worker.LoopEvent.expense (event : Worker.LoopEvent) : Expense :=
  match event.pass with
  | none => .acceptFailed
  | some pass => if pass.response.isSome then .responded else .timedOut

/-- The passes take one after the other from `start`, none of them at 0, and `left` is left. -/
def CountsDown (left : UInt32) : UInt32 → List Worker.LoopEvent → Prop
  | start, [] => start = left
  | start, event :: events => event.maxRequests = start ∧ 0 < start ∧ CountsDown left (start - 1) events

namespace RequestBudgetAux

theorem toNat_pred {n : UInt32} (h : 0 < n) : (n - 1).toNat + 1 = n.toNat := by
  have h0 : 0 < n.toNat := UInt32.lt_iff_toNat_lt.mp h
  have h1 : (1 : UInt32).toNat = 1 := rfl
  have hle : (1 : UInt32) ≤ n := UInt32.le_iff_toNat_le.mpr h0
  rw [UInt32.toNat_sub_of_le n 1 hle, h1]
  omega

end RequestBudgetAux

open RequestBudgetAux

namespace CountsDown

/-- Counting down goes on from what is left. -/
theorem append {left left' : UInt32} : ∀ {start : UInt32} {events events' : List Worker.LoopEvent}, CountsDown left start events →
    CountsDown left' left events' → CountsDown left' start (events ++ events')
  | _, [], _, h, h' => by
    obtain rfl : _ = left := h
    exact h'
  | _, _ :: _, _, ⟨h1, h2, h⟩, h' => ⟨h1, h2, h.append h'⟩

/-- As many passes as have been taken from the count. -/
theorem length {left : UInt32} : ∀ {start : UInt32} {events : List Worker.LoopEvent}, CountsDown left start events →
    events.length + left.toNat = start.toNat
  | start, [], h => by
    obtain rfl : start = left := h
    exact Nat.zero_add _
  | start, event :: events, ⟨_, hpos, h⟩ => by
    have hlen := h.length
    have hpred := toNat_pred hpos
    rw [List.length_cons]
    omega

/-- No pass takes one from 0. -/
theorem pos {left : UInt32} : ∀ {start : UInt32} {events : List Worker.LoopEvent}, CountsDown left start events →
    ∀ event ∈ events, 0 < event.maxRequests
  | _, [], _ => nofun
  | _, event :: events, ⟨hstart, hpos, h⟩ => by
    intro e he
    rcases List.mem_cons.mp he with rfl | he
    · exact hstart ▸ hpos
    · exact h.pos e he

end CountsDown

namespace RequestBudgetAux

open Feed Worker CountsDown

/-- Every pass is one of the three. -/
theorem count_expense (events : List LoopEvent) :
    (events.map LoopEvent.expense).count .acceptFailed + (events.map LoopEvent.expense).count .timedOut +
      (events.map LoopEvent.expense).count .responded = events.length := by
  induction events with
  | nil => rfl
  | cons event events ih =>
    rw [List.map_cons, List.length_cons, List.count_cons, List.count_cons, List.count_cons, ← ih]
    cases event.expense <;> simp <;> omega

/-- A pass after which the loop returns. -/
theorem servePasses_last (workers : Nat → Worker) {pass : Pass} {s s' : Conn} {maxRequests : UInt32}
    (hpass : (workers 0).servePass.run s = .ok (pass, s')) (hlast : maxRequests - 1 = 0 ∨ pass.goesOn = false) (fuel : Nat) :
    (servePasses workers (fuel + 1) maxRequests).run s = .ok ((maxRequests - 1, [⟨maxRequests, some pass⟩]), s') := by
  rw [servePasses, run_bind_of_ok hpass]
  rcases hresponse : pass.response with _ | response
  · rfl
  · have hnot : ¬(maxRequests - 1 > 0 ∧ pass.reqHeader.keepsAlive = true) := by
      rintro ⟨hpos, hkeeps⟩
      rcases hlast with hzero | hstops
      · rw [hzero] at hpos
        exact absurd hpos (by decide)
      · simp [Pass.goesOn, hresponse, hkeeps] at hstops
    simp only [if_neg hnot]
    rfl

/-- A pass after which the loop goes on. -/
theorem servePasses_next (workers : Nat → Worker) {pass : Pass} {s s1 s' : Conn} {maxRequests left : UInt32} {events : List LoopEvent}
    {fuel : Nat} (hpass : (workers 0).servePass.run s = .ok (pass, s1)) (hpos : 0 < maxRequests - 1) (hgoes : pass.goesOn = true)
    (hrest : (servePasses (fun i => workers (i + 1)) fuel (maxRequests - 1)).run s1 = .ok ((left, events), s')) :
    (servePasses workers (fuel + 1) maxRequests).run s = .ok ((left, ⟨maxRequests, some pass⟩ :: events), s') := by
  rw [Pass.goesOn, Bool.and_eq_true, Option.isSome_iff_exists] at hgoes
  obtain ⟨⟨response, hresponse⟩, hkeeps⟩ := hgoes
  rw [servePasses, run_bind_of_ok hpass]
  simp only [hresponse]
  rw [if_pos ⟨hpos, hkeeps⟩, run_bind_of_ok hrest]
  rfl

/-- A pass after which `serve_client` returns. -/
theorem serveClientPasses_last {worker : Worker} {pass : Pass} {s s' : Conn} {maxRequests : UInt32}
    (hpass : worker.servePass.run s = .ok (pass, s')) (hlast : maxRequests - 1 = 0 ∨ pass.goesOn = false) (fuel : Nat) :
    (worker.serveClientPasses (fuel + 1) maxRequests).run s = .ok ((maxRequests - 1, [⟨maxRequests, some pass⟩]), s') := by
  rw [← servePasses_const]
  exact servePasses_last (fun _ => worker) hpass hlast fuel

/-- A pass after which `serve_client` goes on. -/
theorem serveClientPasses_next {worker : Worker} {pass : Pass} {s s1 s' : Conn} {maxRequests left : UInt32} {events : List LoopEvent}
    {fuel : Nat} (hpass : worker.servePass.run s = .ok (pass, s1)) (hpos : 0 < maxRequests - 1) (hgoes : pass.goesOn = true)
    (hrest : (worker.serveClientPasses fuel (maxRequests - 1)).run s1 = .ok ((left, events), s')) :
    (worker.serveClientPasses (fuel + 1) maxRequests).run s = .ok ((left, ⟨maxRequests, some pass⟩ :: events), s') := by
  rw [← servePasses_const] at hrest ⊢
  exact servePasses_next (fun _ => worker) hpass hpos hgoes hrest

/-- The loop returns, however the modifiers answer from pass to pass. -/
theorem servePasses_returns : ∀ (fuel : Nat) (handlers : Nat → List Handler × List Handler) (maxRequests : UInt32) (s : Conn),
    0 < maxRequests → maxRequests.toNat ≤ fuel → ∃ left events s',
      (servePasses (fun i => new (handlers i).1 (handlers i).2) fuel maxRequests).run s = .ok ((left, events), s') := by
  intro fuel
  induction fuel with
  | zero =>
    intro handlers maxRequests s hpos hfuel
    have hpred := toNat_pred hpos
    omega
  | succ fuel ih =>
    intro handlers maxRequests s hpos hfuel
    have hpred := toNat_pred hpos
    obtain ⟨pass, s1, hpass, -, -⟩ := servePass_run (handlers 0).1 (handlers 0).2 s
    by_cases hlast : maxRequests - 1 = 0 ∨ pass.goesOn = false
    · exact ⟨_, _, s1, servePasses_last (fun i => new (handlers i).1 (handlers i).2) hpass hlast fuel⟩
    · rw [not_or, Bool.not_eq_false] at hlast
      have hnext : 0 < maxRequests - 1 := UInt32.pos_iff_ne_zero.mpr hlast.1
      obtain ⟨left, events, s2, hrest⟩ := ih (fun i => handlers (i + 1)) (maxRequests - 1) s1 hnext (by omega)
      exact ⟨left, _, s2, servePasses_next (fun i => new (handlers i).1 (handlers i).2) hpass hnext hlast.2 hrest⟩

/-- `serve_client` counts down by the passes that it makes. -/
theorem serveClientPasses_counts (reqmod respmod : List Handler) : ∀ (fuel : Nat) (maxRequests : UInt32) (s : Conn), 0 < maxRequests →
    maxRequests.toNat ≤ fuel → ∃ left event events s',
      ((new reqmod respmod).serveClientPasses fuel maxRequests).run s = .ok ((left, event :: events), s') ∧
      CountsDown left maxRequests (event :: events) ∧ ((new reqmod respmod).serveClientLoop (maxRequests - 1).toNat).run s =
        .ok ((left.toNat, (event :: events).filterMap LoopEvent.pass), s') := by
  intro fuel
  induction fuel with
  | zero =>
    intro maxRequests s hpos hfuel
    have hpred := toNat_pred hpos
    omega
  | succ fuel ih =>
    intro maxRequests s hpos hfuel
    have hpred := toNat_pred hpos
    obtain ⟨pass, s1, hpass, -, -⟩ := servePass_run reqmod respmod s
    by_cases hlast : maxRequests - 1 = 0 ∨ pass.goesOn = false
    · refine ⟨_, _, _, s1, serveClientPasses_last hpass hlast fuel, ⟨rfl, hpos, rfl⟩, serveClientLoop_last hpass ?_⟩
      exact hlast.imp_left fun hzero => by rw [hzero]; rfl
    · rw [not_or, Bool.not_eq_false] at hlast
      have hnext : 0 < maxRequests - 1 := UInt32.pos_iff_ne_zero.mpr hlast.1
      obtain ⟨left, event, events, s2, hrest, hcounts, hloop⟩ := ih (maxRequests - 1) s1 hnext (by omega)
      refine ⟨left, _, event :: events, s2, serveClientPasses_next hpass hnext hlast.2 hrest, ⟨rfl, hpos, hcounts⟩, ?_⟩
      rw [← toNat_pred hnext]
      exact serveClientLoop_goesOn hpass hlast.2 hloop

/-- `run` counts down to 0. -/
theorem runLoop_counts (reqmod respmod : List Handler) (accept : Nat → Option Conn) : ∀ (fuel calls : Nat) (maxRequests : UInt32),
    maxRequests.toNat < fuel → ∃ events, (new reqmod respmod).runLoop accept fuel calls maxRequests = .ok events ∧
      CountsDown 0 maxRequests events := by
  intro fuel
  induction fuel with
  | zero => exact fun _ _ h => absurd h (Nat.not_lt_zero _)
  | succ fuel ih =>
    intro calls maxRequests hfuel
    rw [runLoop]
    by_cases hpos : 0 < maxRequests
    · rw [if_pos hpos]
      rcases accept calls with _ | clientSock
      · have hpred := toNat_pred hpos
        obtain ⟨events, hrun, hcounts⟩ := ih (calls + 1) (maxRequests - 1) (by omega)
        refine ⟨⟨maxRequests, none⟩ :: events, ?_, rfl, hpos, hcounts⟩
        rw [hrun]
        rfl
      · obtain ⟨left, event, events, s', hserve, hcounts, -⟩ := serveClientPasses_counts reqmod respmod UInt32.size maxRequests
          clientSock hpos (Nat.le_of_lt (UInt32.toNat_lt_size _))
        have hlen := CountsDown.length hcounts
        rw [List.length_cons] at hlen
        obtain ⟨events', hrun, hcounts'⟩ := ih (calls + 1) left (by omega)
        refine ⟨(event :: events) ++ events', ?_, CountsDown.append hcounts hcounts'⟩
        simp only [hserve, RequestAux.ok_bind, hrun]
        rfl
    · rw [if_neg hpos]
      exact ⟨[], rfl, by simpa [CountsDown, UInt32.pos_iff_ne_zero] using hpos⟩

end RequestBudgetAux

/-- What `run` counts is what `serve_client` does: the passes are the same, and so is the number of requests that are left. -/
theorem serveClientPasses_serveClient (reqmod respmod : List Handler) {maxRequests : UInt32} (hpos : 0 < maxRequests) (s : Conn) :
    ∃ left events s', ((Worker.new reqmod respmod).serveClientPasses UInt32.size maxRequests).run s = .ok ((left, events), s') ∧
      ((Worker.new reqmod respmod).serveClient maxRequests.toNat).run s =
        .ok ((left.toNat, events.filterMap Worker.LoopEvent.pass), s') := by
  obtain ⟨left, event, events, s', hrun, -, hloop⟩ := serveClientPasses_counts reqmod respmod UInt32.size maxRequests s hpos
    (Nat.le_of_lt (UInt32.toNat_lt_size _))
  refine ⟨left, event :: events, s', hrun, ?_⟩
  have hpred := toNat_pred hpos
  have hlt := UInt32.toNat_lt maxRequests
  have hwrap : toUInt32 (maxRequests.toNat + (2 ^ 32 - 1)) = (maxRequests - 1).toNat := by
    unfold toUInt32
    omega
  rw [Worker.serveClient, hwrap]
  exact hloop

end BitzServer
