import BitzServer.Icap.LookAhead
import BitzServer.Theorems.RequestBudget

/-!
# The dialogue with a client

The stream of a connection holds all that the client ever sends. A client may as well wait for what the server sends before it goes on, as
it must after a preview: the server has sent the same by then, and what follows does not change it.
-/

namespace BitzServer

open Feed LookAheadAux

/-- A pass with more bytes behind those that were unread when it began. -/
def Pass.more (t : Bytes) (pass : Pass) : Pass := { pass with start := pass.start ++ t }

namespace Worker

/-- The pass of an event with more bytes behind. -/
def LoopEvent.more (t : Bytes) (event : LoopEvent) : LoopEvent := { event with pass := event.pass.map (Pass.more t) }

end Worker

namespace DialogueAux

variable {t : Bytes}

/-! ## Processing -/

theorem previewContinue_online (response : Response) (request : Request) :
    Online t Eq (previewContinue response request) (previewContinue response request) := by
  unfold previewContinue
  split
  · exact Online.pure rfl
  · refine Online.bind_eq (sendResponse_online t response) fun sent => ?_
    split
    · exact readReqContinueData_online t request
    · exact Online.pure rfl

theorem processPreview_online (request : Request) : ∀ (handlers : List Handler) (response : Option Response),
    Online t Eq (processPreview request handlers response) (processPreview request handlers response)
  | [], _ => Online.pure rfl
  | handler :: handlers, response => by
    unfold processPreview
    split
    · exact processPreview_online request handlers response
    · dsimp only
      split
      · exact Online.pure rfl
      · split
        · refine Online.bind_eq (previewContinue_online _ request) fun r => ?_
          split
          · exact Online.pure rfl
          · exact Online.bind_eq (ofStatus_online t _) fun _ => Online.pure rfl
        · exact Online.bind_eq (processPreview_online request handlers _) fun _ => Online.pure rfl

theorem processRead_online (handlers : List Handler) (request : Request) :
    Online t Eq (processRead handlers request) (processRead handlers request) := by
  refine Online.bind_eq ?_ fun r => Online.bind_eq ?_ fun _ => Online.pure rfl
  · split
    · exact processPreview_online request handlers none
    · exact Online.pure rfl
  · split
    · exact Online.pure rfl
    · exact ofStatus_online t _

theorem process_online (handlers : List Handler) (reqHeader : RequestHeader) :
    Online t Eq (process handlers reqHeader) (process handlers reqHeader) := by
  refine Online.bind_eq (readReqData_online t _) ?_
  rintro ⟨request, read⟩
  dsimp only
  split
  · exact processRead_online handlers request
  · exact Online.bind_eq (ofStatus_online t _) fun _ => Online.pure rfl

theorem processOptions_online (methods : List Bytes) (reqHeader : RequestHeader) :
    Online t Eq (processOptions methods reqHeader) (processOptions methods reqHeader) := by
  refine Online.bind_eq (responseHeader_online _) fun header => Online.bind_eq (Online.lift _) fun method => ?_
  refine Online.bind_eq (Online.lift _) fun h => Online.bind_eq (Online.lift _) fun h => Online.bind_eq (Online.lift _) fun h => ?_
  exact Online.bind_eq (Online.pure rfl) fun _ => Online.pure rfl

/-! ## Serving -/

theorem respond_online (worker : Worker) (reqHeader : RequestHeader) :
    Online t Eq (worker.respond reqHeader) (worker.respond reqHeader) := by
  unfold Worker.respond
  split
  · rename_i handler _
    cases handler with
    | modifiers handlers => exact Online.bind_eq (process_online handlers reqHeader) fun _ => Online.pure rfl
    | options methods => exact Online.bind_eq (processOptions_online methods reqHeader) fun _ => Online.pure rfl
  · exact Online.bind_eq (responseHeader_online _) fun _ => Online.bind_eq (Online.pure rfl) fun _ => Online.pure rfl

theorem answer_online (reqHeader : RequestHeader) (response : Response) :
    Online t Eq (Worker.answer reqHeader response) (Worker.answer reqHeader response) := by
  refine Online.bind_eq ?_ fun h => Online.bind_eq (sendResponse_online t _) fun _ => Online.pure rfl
  split
  · exact Online.lift _
  · exact Online.pure rfl

/-- The stream itself, as a pass finds it. -/
theorem get_online : Online t (fun s s' => s' = Conn.more t s) (get : SockM Conn) get where
  live := by
    rintro s _ _ - ⟨⟩ -
    exact ⟨_, rfl, rfl⟩
  ended := by
    rintro s _ _ b s₂ hs ⟨⟩ hdead -
    exact absurd hs hdead
  silent := by
    rintro s _ _ ⟨⟩
    exact Std.Refl.refl s
  grows := by
    rintro s _ _ ⟨⟩
    exact Std.Refl.refl s

theorem servePass_online (worker : Worker) : Online t (fun pass pass' => pass' = pass.more t) worker.servePass worker.servePass := by
  refine Online.bind_grown (m := Conn.more) (r := fun u (pass pass' : Pass) => pass' = pass.more u) (fun s => ?_) get_online fun u s => ?_
  · rw [Conn.more, List.append_nil]
  · refine Online.bind_eq (readReqHeader_online u) fun reqHeader => Online.bind_eq timedout_online fun out => ?_
    split
    · exact Online.pure rfl
    · refine Online.bind_eq (respond_online worker reqHeader) fun r => ?_
      exact Online.bind_eq (answer_online r.1 r.2) fun _ => Online.pure rfl

theorem pass_more_nil (pass : Pass) : pass.more [] = pass := by
  rw [Pass.more, List.append_nil]

/-- The loop decides by the request and the response whether it goes on; neither has to do with what is unread. -/
theorem serveClientPasses_online (worker : Worker) : ∀ (t : Bytes) (fuel : Nat) (maxRequests : UInt32),
    Online t (fun r r' => r' = (r.1, r.2.map (Worker.LoopEvent.more t))) (worker.serveClientPasses fuel maxRequests)
      (worker.serveClientPasses fuel maxRequests)
  | _, 0, _ => Online.throw _ (Keeps.throw _)
  | t, fuel + 1, maxRequests => by
    rw [Worker.serveClientPasses]
    refine Online.bind_grown (m := Pass.more) (r := fun u (r r' : UInt32 × List Worker.LoopEvent) =>
      r' = (r.1, r.2.map (Worker.LoopEvent.more u))) pass_more_nil (servePass_online worker) fun u pass => ?_
    have hresponse : (pass.more u).response = pass.response := rfl
    have hheader : (pass.more u).reqHeader = pass.reqHeader := rfl
    dsimp only
    rw [hresponse, hheader]
    cases pass.response with
    | none => exact Online.pure rfl
    | some response =>
      dsimp only
      by_cases hgoes : maxRequests - 1 > 0 ∧ pass.reqHeader.keepsAlive = true
      · rw [if_pos hgoes, if_pos hgoes]
        refine Online.bind (serveClientPasses_online worker u fuel _) (fun _ => Keeps.pure _) (fun _ => Keeps.pure _) ?_
        rintro ⟨left, events⟩ _ rfl
        exact Online.pure rfl
      · rw [if_neg hgoes, if_neg hgoes]
        exact Online.pure rfl

/-- What has been sent in the passes stays sent. -/
theorem servePasses_grows : ∀ (fuel : Nat) (workers : Nat → Worker) (maxRequests : UInt32),
    Keeps Grows (Worker.servePasses workers fuel maxRequests)
  | 0, _, _ => Keeps.throw _
  | fuel + 1, workers, maxRequests => by
    rw [Worker.servePasses]
    refine Keeps.bind (servePass_online (t := []) (workers 0)).grows fun pass => ?_
    dsimp only
    split
    · exact Keeps.pure _
    · split
      · exact Keeps.bind (servePasses_grows fuel (fun i => workers (i + 1)) _) fun _ => Keeps.pure _
      · exact Keeps.pure _

end DialogueAux

open DialogueAux

/-- Whatever a client sends after what it has seen, nothing of what it has seen is taken back. -/
theorem serveClient_rounds (reqmod respmod : List Handler) {maxRequests : UInt32} (hpos : 0 < maxRequests) (s : Conn)
    (client : Peer Byte Byte) (n : Nat) :
    rounds ((Worker.new reqmod respmod).serveClientPasses UInt32.size maxRequests) s client n <+:
      rounds ((Worker.new reqmod respmod).serveClientPasses UInt32.size maxRequests) s client (n + 1) := by
  refine rounds_grow (fun t => serveClientPasses_online (Worker.new reqmod respmod) t UInt32.size maxRequests) (fun s => ?_) s client n
  obtain ⟨left, event, events, s', hrun, -⟩ :=
    RequestBudgetAux.serveClientPasses_counts reqmod respmod UInt32.size maxRequests s hpos (Nat.le_of_lt maxRequests.toNat_lt_size)
  exact ⟨_, s', hrun⟩

end BitzServer
