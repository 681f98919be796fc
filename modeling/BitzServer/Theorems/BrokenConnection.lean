import BitzServer.Icap.StreamPrograms
import BitzServer.Lib.Outage
import BitzServer.Theorems.RequestBudget

/-!
# A connection that breaks

A write to a client may fail at any point. As `std::ostream` does it, a write that fails sets `badbit`, and nothing is written or read from
there on. The worker goes on as its code has it: some results are ignored, some end a preview. What the client has received by then is the
beginning of what it would have received.
-/

namespace BitzServer

open Feed

/-- Every write that fails sets `badbit`, as those of a `std::ostream` do. -/
def Conn.BreaksWhenFailing (s : Conn) : Prop := ∀ fault, some fault ∈ s.faults → fault.breaks = true

/-- The socket as an outlet: what has been sent, whether its writes are lost, and the same socket without faults. -/
instance : Outlet Conn Byte where
  output s := s.sent
  Severed s := s.good = false ∧ s.broken = true
  Fragile := Conn.BreaksWhenFailing
  repaired s := { s with faults := [] }
  output_repaired _ := rfl

namespace BrokenConnectionAux

/-! ## The operations -/

/-- What takes characters leaves a stream that has been broken as it is. -/
theorem readChars_severs {α : Type} (loop : Bytes → Except Fault (α × Bytes × Bool)) : Severs (readChars loop) := by
  refine Severs.of_quiet fun {s a s'} hrun => ?_
  cases hloop : loop (if s.good then s.unread else []) with
  | error e =>
    rw [StateT.run, readChars] at hrun
    split at hrun <;> simp_all
  | ok r =>
    have hrepaired := readChars_run (s := Outlet.repaired s) hloop
    obtain ⟨rfl, rfl⟩ := Prod.mk.inj (Except.ok.inj (hrun.symm.trans (readChars_run hloop)))
    rw [hrepaired]
    cases hg : s.good with
    | true => exact ⟨rfl, id, fun hs => absurd (hg.symm.trans hs.1) (Bool.false_ne_true ∘ Eq.symm), rfl⟩
    | false => exact ⟨rfl, id, id, rfl⟩

/-- `read` does not use what has been sent. -/
theorem read_severs (n : Nat) : Severs (read n) := by
  refine Severs.of_quiet fun {s a s'} hrun => ?_
  have hrepaired : (read n).run (Outlet.repaired s) = (read n).run s >>= fun r => .ok (r.1, Outlet.repaired r.2) := by
    show read n _ = read n s >>= _
    rw [read, read]
    show (if s.good = true then _ else _) = _
    split
    · show (if n ≤ s.unread.length then _ else _) = _
      split <;> rfl
    · rfl
  rw [hrepaired, hrun]
  have hkeeps := read_writesNothing n s a s' hrun
  refine ⟨rfl, fun hs => ?_, fun hs => ?_, hkeeps.1⟩
  · show ∀ fault, some fault ∈ s'.faults → _
    rw [hkeeps.2.2]
    exact hs
  · rw [StateT.run, read, if_neg (by simp [hs.1])] at hrun
    obtain ⟨-, rfl⟩ := Prod.mk.inj (Except.ok.inj hrun)
    exact hs

/-- What looks at the stream and changes neither what is sent nor whether it is good nor which writes fail. -/
theorem look_severs {α : Type} {f : Conn → α} {g : Conn → Conn} (hf : ∀ s, f (Outlet.repaired s) = f s)
    (hg : ∀ s, g (Outlet.repaired s) = Outlet.repaired (g s))
    (hsame : ∀ s, (g s).faults = s.faults ∧ (g s).good = s.good ∧ (g s).broken = s.broken ∧ (g s).sent = s.sent) :
    Severs (fun s => .ok (f s, g s) : SockM α) := by
  refine Severs.of_quiet fun {s a s'} hrun => ?_
  obtain ⟨rfl, rfl⟩ := Prod.mk.inj (Except.ok.inj hrun)
  obtain ⟨hfaults, hgood, hbroken, hsent⟩ := hsame s
  refine ⟨?_, fun hs => ?_, fun hs => ⟨hgood.trans hs.1, hbroken.trans hs.2⟩, hsent⟩
  · show Except.ok (f (Outlet.repaired s), g (Outlet.repaired s)) = _
    rw [hf, hg]
  · show ∀ fault, some fault ∈ (g s).faults → _
    rw [hfaults]
    exact hs

/-- A flush sends nothing that has not been written. -/
theorem flush_severs : Severs flush := by
  refine look_severs (f := fun _ => ()) (g := fun s => if s.good then { s with flushed := s.sent } else s) (fun _ => rfl) ?_ ?_
  · intro s
    show (if s.good = true then _ else _) = Outlet.repaired (if s.good = true then _ else _)
    split <;> rfl
  · intro s
    split <;> exact ⟨rfl, rfl, rfl, rfl⟩

/-- A write sends behind what has been sent. -/
theorem write_extends (data : Bytes) : Keeps Extends (write data) := by
  intro s b s' hrun
  cases written_of_run hrun with
  | dead _ => exact List.prefix_refl s.sent
  | failed _ _ => exact List.prefix_refl s.sent
  | written _ _ => exact List.prefix_append s.sent data

/-- A write that fails sends nothing, and nothing is sent after it. -/
theorem write_severs (data : Bytes) : Severs (write data) where
  breaks := by
    intro s b s' hs hrun
    have htail : ∀ fault, some fault ∈ s.faults.tail → fault.breaks = true := fun fault hmem => hs fault (List.mem_of_mem_tail hmem)
    cases written_of_run hrun with
    | dead hgood => exact .inl ⟨by simp [StateT.run, write, Outlet.repaired, hgood], hs⟩
    | written hgood _ => exact .inl ⟨by simp [StateT.run, write, Outlet.repaired, hgood], htail⟩
    | failed hgood hfault =>
      have hbreaks := hs _ (mem_faults_of_head hfault)
      refine .inr ⟨⟨by rw [hbreaks]; rfl, by rw [hbreaks, Bool.or_true]⟩, fun b s₂ hwhole => ?_⟩
      exact write_extends data (Outlet.repaired s) b s₂ hwhole
  mute := by
    intro s b s' hrun hs
    cases written_of_run hrun with
    | dead _ => exact ⟨hs, rfl⟩
    | failed hgood _ => exact absurd (hs.1.symm.trans hgood) Bool.false_ne_true
    | written hgood _ => exact absurd (hs.1.symm.trans hgood) Bool.false_ne_true
  grows := write_extends data

/-- A program of the stream operations is severed where a write fails. -/
theorem severs {α : Type} {p : SockM α} (h : StreamProgram p) : Severs p := by
  induction h with
  | pure a => exact Severs.pure a
  | lift e => exact Severs.lift e
  | bind _ _ ihp ihf => exact ihp.bind ihf
  | readChars loop => exact readChars_severs loop
  | read n => exact read_severs n
  | good => exact look_severs (fun _ => rfl) (fun _ => rfl) fun _ => ⟨rfl, rfl, rfl, rfl⟩
  | timedout => exact look_severs (fun _ => rfl) (fun _ => rfl) fun _ => ⟨rfl, rfl, rfl, rfl⟩
  | unread => exact look_severs (fun _ => rfl) (fun _ => rfl) fun _ => ⟨rfl, rfl, rfl, rfl⟩
  | write data => exact write_severs data
  | flush => exact flush_severs
  | uninitialised => exact look_severs (fun _ => rfl) (fun _ => rfl) fun _ => ⟨rfl, rfl, rfl, rfl⟩
  | now => exact look_severs (fun _ => rfl) (fun _ => rfl) fun _ => ⟨rfl, rfl, rfl, rfl⟩
  | fuel f _ ih => exact Severs.ofFuel ih fun _ => rfl

/-! ## Serving -/

/-- `preview_continue` sends the response and reads the rest of the body. -/
theorem previewContinue_program (response : Response) (request : Request) : StreamProgram (previewContinue response request) :=
  .ite (.pure _) (.bind (.sendResponse response) fun _ => .ite (.readReqContinueData request) (.pure _))

/-- `process_preview` uses the stream through `preview_continue`. -/
theorem processPreview_program (request : Request) : ∀ (handlers : List Handler) (response : Option Response),
    StreamProgram (processPreview request handlers response)
  | [], _ => .pure _
  | handler :: handlers, response => by
    refine .ite (processPreview_program request handlers response) (.ite (.pure _) (.ite ?_ ?_))
    · exact .bind (previewContinue_program _ request) fun _ => .ite (.pure _) (.bind (.ofStatus _) fun _ => .pure _)
    · exact .bind (processPreview_program request handlers _) fun _ => .pure _

/-- A request that has been read is answered through the modifiers. -/
theorem processRead_program (handlers : List Handler) (request : Request) : StreamProgram (processRead handlers request) := by
  refine .bind (.ite (processPreview_program request handlers none) (.pure _)) fun r => .bind ?_ fun _ => .pure _
  split
  · exact .pure _
  · exact .ofStatus _

/-- `process` reads the request and answers it. -/
theorem process_program (handlers : List Handler) (reqHeader : RequestHeader) : StreamProgram (process handlers reqHeader) :=
  .bind (.readReqData _) fun r => .ite (processRead_program handlers r.1) (.bind (.ofStatus _) fun _ => .pure _)

/-- The answer to `OPTIONS` does not use the stream. -/
theorem processOptions_program (methods : List Bytes) (reqHeader : RequestHeader) :
    StreamProgram (processOptions methods reqHeader) := by
  refine .bind (.responseHeader _) fun header => .bind (.lift _) fun method => .bind (.lift _) fun h => ?_
  exact .bind (.lift _) fun h => .bind (.lift _) fun h => .bind (.pure _) fun _ => .pure _

/-- The handler of the method answers, or the method is not allowed. -/
theorem respond_program (worker : Worker) (reqHeader : RequestHeader) : StreamProgram (worker.respond reqHeader) := by
  unfold Worker.respond
  split
  · rename_i handler _
    refine .bind ?_ fun _ => .pure _
    cases handler with
    | modifiers handlers => exact process_program handlers reqHeader
    | options methods => exact processOptions_program methods reqHeader
  · exact .bind (.responseHeader _) fun _ => .bind (.pure _) fun _ => .pure _

/-- The answer goes out with its `Connection` header. -/
theorem answer_program (reqHeader : RequestHeader) (response : Response) : StreamProgram (Worker.answer reqHeader response) :=
  .bind (.ite (.lift _) (.pure _)) fun _ => .bind (.sendResponse _) fun _ => .pure _

/-- A pass of `serve_client` reads a request and answers it. -/
theorem servePass_program (worker : Worker) : StreamProgram worker.servePass := by
  have hrest : ∀ start : Bytes, StreamProgram (do
      let reqHeader ← readReqHeader
      if ← timedout then return { start := start, reqHeader := reqHeader, response := none }
      else
        let r ← worker.respond reqHeader
        return { start := start, reqHeader := r.1, response := some (← Worker.answer r.1 r.2) } : SockM Pass) := by
    refine fun start => .bind .readReqHeader fun reqHeader => .bind .timedout fun out => .ite (.pure _) ?_
    exact .bind (respond_program worker reqHeader) fun r => .bind (answer_program r.1 r.2) fun _ => .pure _
  have hpass := StreamProgram.bind .unread hrest
  rw [bind_assoc] at hpass
  exact hpass

/-- `serve_client` makes pass after pass. -/
theorem serveClientPasses_program (worker : Worker) : ∀ (fuel : Nat) (maxRequests : UInt32),
    StreamProgram (worker.serveClientPasses fuel maxRequests)
  | 0, _ => .throw _
  | fuel + 1, maxRequests => by
    refine .bind (servePass_program worker) fun pass => ?_
    dsimp only
    split
    · exact .pure _
    · exact .ite (.bind (serveClientPasses_program worker fuel _) fun _ => .pure _) (.pure _)

end BrokenConnectionAux

open BrokenConnectionAux

end BitzServer
