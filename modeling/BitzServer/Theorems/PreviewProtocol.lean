import BitzServer.Server.RequestHandler

/-!
# The preview protocol

What a run of `process` writes to the client and which methods of its modifiers it calls, for all handlers, whatever their modifiers
answer, and for all streams.
-/

namespace BitzServer

open Feed

/-- A loaded handler whose preview response ends the loop of `process_preview`. -/
def Handler.decides (request : Request) (handler : Handler) : Bool :=
  decide (handler.name ≠ [] ∧ ((handler.modifier.preview request).header.status = .noContent ∨
    (handler.modifier.preview request).header.status = .ok ∨ (handler.modifier.preview request).header.status = .continue))

/-- The `100 Continue` for which `preview_continue` is run: the answer of the first handler that decides. -/
def continueResponse (handlers : List Handler) (request : Request) : Option Response :=
  ((handlers.find? (Handler.decides request)).map (·.modifier.preview request)).filter (fun r => r.header.status = .continue)

/-- The run of `preview_continue` from `s`, its result and where it leaves the connection; no result if it is not run. -/
inductive RunsContinue (handlers : List Handler) (request : Request) (s : Conn) : Option Bool → Conn → Prop
  | never (h : request.previewSize < 0 ∨ continueResponse handlers request = none) : RunsContinue handlers request s none s
  | once {response : Response} {request' : Request} {result : Bool} {s' : Conn} (hpreview : request.previewSize ≥ 0)
      (h : continueResponse handlers request = some response)
      (hrun : (previewContinue response request).run s = .ok ((request', result), s')) :
      RunsContinue handlers request s (some result) s'

/-- The responses that are written between two states of the connection, and nothing else is. -/
inductive Writes : Conn → List Response → Conn → Prop
  | none {s s' : Conn} (h : s.WritesNothing s') : Writes s [] s'
  | send {s s1 s2 s' : Conn} {response : Response} {responses : List Response} {sent : Bool} (h : s.WritesNothing s1)
      (hrun : (sendResponse response).run s1 = .ok (sent, s2)) (hrest : Writes s2 responses s') : Writes s (response :: responses) s'

/-- What the preview protocol asks of a run of `process` from `s` to `s'` with the outcome `o`, which has read `request` at `s₁`. -/
structure PreviewSafe (handlers : List Handler) (request : Request) (s s₁ : Conn) (o : Outcome) (s' : Conn) : Prop where
  /-- At most one `100 Continue` is written, none after `ieof`, and nothing else. -/
  writes : ∃ responses, Writes s responses s' ∧ responses.length ≤ 1 ∧
    ∀ r ∈ responses, r.header.status = .continue ∧ request.payload.ieof = false
  /-- `modify` is called only without a preview or once `preview_continue` has returned true; if it has returned false, `modify` is not
  called and the status is 500. -/
  continues : ∃ result s₂, RunsContinue handlers request s₁ result s₂ ∧ s₂.KeepsInput s' ∧ s₂.WritesNothing s' ∧
    ((∃ c ∈ o.calls, c.operation = .modify) → request.previewSize < 0 ∨ result = some true) ∧
    (result = some false → (∀ c ∈ o.calls, c.operation ≠ .modify) ∧ o.response.header.status = .serverError)
  /-- Only loaded modifiers are called. -/
  loaded : ∀ c ∈ o.calls, ∃ handler ∈ handlers, handler.name ≠ [] ∧ c.name = handler.name
  /-- Without a loaded modifier the status is 500. -/
  unloaded : (∀ handler ∈ handlers, handler.name = []) → o.calls = [] ∧ o.response.header.status = .serverError

namespace PreviewProtocolAux

/-! ### The calls of the two loops -/

/-- Calls of one method of loaded handlers. -/
def CallsOf (handlers : List Handler) (operation : Operation) (calls : List Call) : Prop :=
  ∀ c ∈ calls, c.operation = operation ∧ ∃ handler ∈ handlers, handler.name ≠ [] ∧ c.name = handler.name

theorem CallsOf.nil (handlers : List Handler) (operation : Operation) : CallsOf handlers operation [] := nofun

theorem CallsOf.skip {handler : Handler} {handlers : List Handler} {operation : Operation} {calls : List Call}
    (h : CallsOf handlers operation calls) : CallsOf (handler :: handlers) operation calls := by
  intro c hc
  obtain ⟨hop, handler', hmem, hrest⟩ := h c hc
  exact ⟨hop, handler', List.mem_cons_of_mem _ hmem, hrest⟩

theorem CallsOf.call {handler : Handler} {handlers : List Handler} {operation : Operation} {calls : List Call}
    (hname : handler.name ≠ []) (request : Request) (h : CallsOf handlers operation calls) :
    CallsOf (handler :: handlers) operation ({ name := handler.name, operation := operation, request := request } :: calls) := by
  intro c hc
  rcases List.mem_cons.mp hc with rfl | hc
  · exact ⟨rfl, handler, List.mem_cons_self, hname, rfl⟩
  · exact h.skip c hc

/-- Without a loaded handler there is no call. -/
theorem CallsOf.eq_nil {handlers : List Handler} {operation : Operation} {calls : List Call} (h : CallsOf handlers operation calls)
    (hnone : ∀ handler ∈ handlers, handler.name = []) : calls = [] := by
  refine List.eq_nil_iff_forall_not_mem.mpr fun c hc => ?_
  obtain ⟨-, handler, hmem, hname, -⟩ := h c hc
  exact hname (hnone handler hmem)

/-- `process_modify` calls `modify` of loaded handlers; without one the response stays. -/
theorem processModify_spec (request : Request) : ∀ (handlers : List Handler) (response : Option Response),
    CallsOf handlers .modify (processModify request handlers response).2 ∧
      ((∀ handler ∈ handlers, handler.name = []) → (processModify request handlers response).1 = response)
  | [], response => ⟨CallsOf.nil _ _, fun _ => rfl⟩
  | handler :: handlers, response => by
    rw [processModify]
    by_cases hname : handler.name = []
    · rw [if_pos hname]
      obtain ⟨hcalls, hsame⟩ := processModify_spec request handlers response
      exact ⟨hcalls.skip, fun h => hsame fun x hx => h x (List.mem_cons_of_mem _ hx)⟩
    · rw [if_neg hname]
      refine ⟨?_, fun h => absurd (h handler List.mem_cons_self) hname⟩
      dsimp only
      split
      · exact (CallsOf.nil handlers _).call hname request
      · exact (processModify_spec request handlers _).1.call hname request

/-- How the loop of `process_preview` ends: with the response and the connection it is given if no handler is loaded, with an answer,
or with a run of `preview_continue`. -/
inductive PreviewEnd (handlers : List Handler) (request : Request) (response : Option Response) (s : Conn) :
    Option Response → Conn → Prop
  | unloaded (h : ∀ handler ∈ handlers, handler.name = []) : PreviewEnd handlers request response s response s
  | answered (hloaded : ∃ handler ∈ handlers, handler.name ≠ []) (h : continueResponse handlers request = none) (answer : Response) :
      PreviewEnd handlers request response s (some answer) s
  | continued {r : Response} {request' : Request} {s' : Conn} (h : continueResponse handlers request = some r)
      (hrun : (previewContinue r request).run s = .ok ((request', true), s')) : PreviewEnd handlers request response s none s'
  | refused {r answer : Response} {request' : Request} {s1 s' : Conn} (h : continueResponse handlers request = some r)
      (hrun : (previewContinue r request).run s = .ok ((request', false), s1))
      (hanswer : (Response.ofStatus .serverError).run s1 = .ok (answer, s')) : PreviewEnd handlers request response s (some answer) s'

/-- A handler that does not decide is passed over. -/
theorem continueResponse_cons_of_not {handler : Handler} {request : Request} (h : handler.decides request = false)
    (handlers : List Handler) : continueResponse (handler :: handlers) request = continueResponse handlers request := by
  rw [continueResponse, List.find?_cons_of_neg (by simp [h])]
  rfl

theorem continueResponse_cons {handler : Handler} {request : Request} (h : handler.decides request = true) (handlers : List Handler) :
    continueResponse (handler :: handlers) request =
      if (handler.modifier.preview request).header.status = .continue then some (handler.modifier.preview request) else none := by
  rw [continueResponse, List.find?_cons_of_pos h]
  by_cases hstatus : (handler.modifier.preview request).header.status = .continue <;> simp [hstatus]

/-- Where no handler is loaded, none asks for a continue. -/
theorem continueResponse_of_unloaded {handlers : List Handler} (h : ∀ handler ∈ handlers, handler.name = []) (request : Request) :
    continueResponse handlers request = none := by
  have hnone : handlers.find? (Handler.decides request) = none := by
    refine List.find?_eq_none.mpr fun x hx => ?_
    simp [Handler.decides, h x hx]
  rw [continueResponse, hnone]
  rfl

/-- What is behind a handler that is passed over ends the loop. -/
theorem PreviewEnd.cons {handler : Handler} {handlers : List Handler} {request : Request} {response response₁ response' : Option Response}
    {s s' : Conn} (hdecides : handler.decides request = false) (hname : handler.name = [] → response₁ = response)
    (hsome : handler.name ≠ [] → response₁.isSome = true) (h : PreviewEnd handlers request response₁ s response' s') :
    PreviewEnd (handler :: handlers) request response s response' s' := by
  have hcons := continueResponse_cons_of_not hdecides handlers
  cases h with
  | unloaded h =>
    by_cases hloaded : handler.name = []
    · rw [hname hloaded]
      refine .unloaded fun x hx => ?_
      rcases List.mem_cons.mp hx with rfl | hx
      · exact hloaded
      · exact h x hx
    · obtain ⟨answer, rfl⟩ := Option.isSome_iff_exists.mp (hsome hloaded)
      refine .answered ⟨handler, List.mem_cons_self, hloaded⟩ ?_ answer
      rw [hcons]
      exact continueResponse_of_unloaded h request
  | answered hloaded h answer =>
    obtain ⟨x, hx, hne⟩ := hloaded
    exact .answered ⟨x, List.mem_cons_of_mem _ hx, hne⟩ (hcons.trans h) answer
  | continued h hrun => exact .continued (hcons.trans h) hrun
  | refused h hrun hanswer => exact .refused (hcons.trans h) hrun hanswer

/-- `process_preview` calls `preview` of loaded handlers and ends in one of these ways. -/
theorem processPreview_spec (request : Request) : ∀ (handlers : List Handler) (response : Option Response) (s : Conn),
    ∃ request' response' calls s', (processPreview request handlers response).run s = .ok ((request', response', calls), s') ∧
      CallsOf handlers .preview calls ∧ PreviewEnd handlers request response s response' s'
  | [], response, s => ⟨request, response, [], s, rfl, CallsOf.nil _ _, .unloaded nofun⟩
  | handler :: handlers, response, s => by
    rw [processPreview]
    by_cases hname : handler.name = []
    · have hdecides : handler.decides request = false := by simp [Handler.decides, hname]
      obtain ⟨request', response', calls, s', hrun, hcalls, hend⟩ := processPreview_spec request handlers response s
      rw [if_pos hname]
      exact ⟨request', response', calls, s', hrun, hcalls.skip, hend.cons hdecides (fun _ => rfl) fun h => absurd hname h⟩
    · rw [if_neg hname]
      have hcall := (CallsOf.nil handlers .preview).call hname request
      have hloaded : ∃ x ∈ handler :: handlers, x.name ≠ [] := ⟨handler, List.mem_cons_self, hname⟩
      dsimp only
      by_cases hfinal : (handler.modifier.preview request).header.status = .noContent ∨
          (handler.modifier.preview request).header.status = .ok
      · rw [if_pos hfinal]
        have hne : ¬(handler.modifier.preview request).header.status = .continue := by
          rcases hfinal with h | h <;> rw [h] <;> decide
        have hdecides : handler.decides request = true := decide_eq_true ⟨hname, hfinal.elim .inl fun h => .inr (.inl h)⟩
        exact ⟨_, _, _, s, rfl, hcall, .answered hloaded ((continueResponse_cons hdecides _).trans (if_neg hne)) _⟩
      · rw [if_neg hfinal]
        by_cases hcontinue : (handler.modifier.preview request).header.status = .continue
        · rw [if_pos hcontinue]
          have hdecides : handler.decides request = true := decide_eq_true ⟨hname, .inr (.inr hcontinue)⟩
          have hresponse := (continueResponse_cons hdecides handlers).trans (if_pos hcontinue)
          obtain ⟨⟨request', result⟩, s1, hrun, -, -⟩ := previewContinue_within (handler.modifier.preview request) request s
          rw [run_bind_of_ok hrun]
          cases result with
          | true => exact ⟨_, _, _, s1, rfl, hcall, .continued hresponse hrun⟩
          | false =>
            obtain ⟨answer, s2, hanswer, -, -⟩ := Response.ofStatus_returns .serverError s1
            refine ⟨request', some answer, _, s2, ?_, hcall, .refused hresponse hrun hanswer⟩
            simp only [Bool.false_eq_true, if_false]
            rw [run_bind_of_ok hanswer]
            rfl
        · rw [if_neg hcontinue]
          have hdecides : handler.decides request = false := by
            simp only [not_or] at hfinal
            simp [Handler.decides, hfinal, hcontinue]
          obtain ⟨request', response', calls, s', hrun, hcalls, hend⟩ :=
            processPreview_spec request handlers (some (handler.modifier.preview request)) s
          refine ⟨request', response', _, s', ?_, hcalls.call hname request,
            hend.cons hdecides (fun h => absurd h hname) fun _ => rfl⟩
          rw [run_bind_of_ok hrun]
          rfl

/-! ### What is written -/

/-- `preview_continue` writes at most the response it is given, and nothing after `ieof`. -/
theorem previewContinue_writes {response : Response} {request request' : Request} {result : Bool} {s s' : Conn}
    (hrun : (previewContinue response request).run s = .ok ((request', result), s')) :
    ∃ responses, Writes s responses s' ∧ responses.length ≤ 1 ∧ ∀ r ∈ responses, r = response ∧ request.payload.ieof = false := by
  cases hieof : request.payload.ieof with
  | true =>
    obtain ⟨-, rfl⟩ := Prod.mk.inj (Except.ok.inj ((previewContinue_ieof hieof response s).symm.trans hrun))
    exact ⟨[], .none (Std.Refl.refl s), by simp, nofun⟩
  | false =>
    rw [previewContinue, if_neg (by simp [hieof])] at hrun
    obtain ⟨sent, s1, hsend, -, -⟩ := sendResponse_within response s
    rw [run_bind_of_ok hsend] at hrun
    have hquiet : s1.WritesNothing s' := by
      cases sent with
      | true => exact readReqContinueData_writesNothing request s1 _ s' hrun
      | false =>
        obtain ⟨-, rfl⟩ := Prod.mk.inj (Except.ok.inj hrun)
        exact Std.Refl.refl s1
    refine ⟨[response], .send (Std.Refl.refl s) hsend (.none hquiet), Nat.le_refl _, fun r hr => ⟨List.mem_singleton.mp hr, rfl⟩⟩

/-- Nothing is written before or after. -/
theorem writes_widen {s s1 s2 s' : Conn} {responses : List Response} (hbefore : s.WritesNothing s1) (h : Writes s1 responses s2)
    (hafter : s2.WritesNothing s') : Writes s responses s' := by
  induction h generalizing s with
  | none h => exact .none (IsTrans.trans _ _ _ hbefore (IsTrans.trans _ _ _ h hafter))
  | send h hrun _ ih => exact .send (IsTrans.trans _ _ _ hbefore h) hrun (ih (Std.Refl.refl _) hafter)

theorem continueResponse_status {handlers : List Handler} {request : Request} {response : Response}
    (h : continueResponse handlers request = some response) : response.header.status = .continue := by
  rw [continueResponse, Option.filter_eq_some_iff] at h
  simpa using h.2

/-- What the run of `preview_continue` writes, if there is one. -/
theorem runsContinue_writes {handlers : List Handler} {request : Request} {s s' : Conn} {result : Option Bool}
    (h : RunsContinue handlers request s result s') : ∃ responses, Writes s responses s' ∧ responses.length ≤ 1 ∧
      ∀ r ∈ responses, r.header.status = .continue ∧ request.payload.ieof = false := by
  cases h with
  | never => exact ⟨[], .none (Std.Refl.refl s), by simp, nofun⟩
  | once _ h hrun =>
    obtain ⟨responses, hwrites, hlen, hall⟩ := previewContinue_writes hrun
    refine ⟨responses, hwrites, hlen, fun r hr => ?_⟩
    obtain ⟨rfl, hieof⟩ := hall r hr
    exact ⟨continueResponse_status h, hieof⟩

/-! ### The part behind the preview -/

/-- What `process` does once the preview is behind it. -/
theorem processRead_of_preview {handlers : List Handler} {request request' : Request} {response' : Option Response}
    {previews : List Call} {s s₂ : Conn}
    (h : (if request.previewSize ≥ 0 then processPreview request handlers none else pure (request, none, []) :
      SockM (Request × Option Response × List Call)).run s = .ok ((request', response', previews), s₂))
    (hpreviews : CallsOf handlers .preview previews) :
    ∃ o s', (processRead handlers request).run s = .ok (o, s') ∧ s₂.KeepsInput s' ∧ s₂.WritesNothing s' ∧
      (∀ c ∈ o.calls, ∃ handler ∈ handlers, handler.name ≠ [] ∧ c.name = handler.name) ∧
      (∀ answer, response' = some answer → (∀ c ∈ o.calls, c.operation ≠ .modify) ∧ o.response = answer) ∧
      ((∀ handler ∈ handlers, handler.name = []) → response' = none → o.calls = [] ∧ o.response.header.status = .serverError) := by
  have hpreview : ∀ c ∈ previews, c.operation ≠ .modify := fun c hc => by rw [(hpreviews c hc).1]; decide
  rw [processRead, run_bind_of_ok h]
  cases response' with
  | some answer =>
    refine ⟨{ reqHeader := request'.header, response := answer, calls := previews ++ [] }, s₂, rfl, Std.Refl.refl s₂, Std.Refl.refl s₂,
      ?_, ?_, nofun⟩
    · exact fun c hc => (hpreviews c (by simpa using hc)).2
    · rintro _ ⟨⟩
      exact ⟨fun c hc => hpreview c (by simpa using hc), rfl⟩
  | none =>
    obtain ⟨hmodifies, hstays⟩ := processModify_spec request' handlers none
    have hloaded : ∀ c ∈ previews ++ (processModify request' handlers none).2,
        ∃ handler ∈ handlers, handler.name ≠ [] ∧ c.name = handler.name := fun c hc =>
      (List.mem_append.mp hc).elim (fun hc => (hpreviews c hc).2) fun hc => (hmodifies c hc).2
    dsimp only
    cases hmodify : (processModify request' handlers none).1 with
    | some modified =>
      refine ⟨_, s₂, rfl, Std.Refl.refl s₂, Std.Refl.refl s₂, hloaded, nofun, fun hnone => ?_⟩
      exact absurd (hmodify.symm.trans (hstays hnone)) nofun
    | none =>
      obtain ⟨answer, s', hanswer, hkeeps, hstatus, -⟩ := Response.ofStatus_returns .serverError s₂
      refine ⟨{ reqHeader := request'.header, response := answer, calls := previews ++ (processModify request' handlers none).2 }, s', ?_,
        hkeeps, Response.ofStatus_writesNothing _ _ _ _ hanswer, hloaded, nofun, fun hnone _ => ⟨?_, hstatus⟩⟩
      · rw [run_bind_of_ok hanswer]
        rfl
      · rw [hpreviews.eq_nil hnone, hmodifies.eq_nil hnone]
        rfl

/-- Behind the reading `process` runs `preview_continue` where the first handler that decides asks for it, and goes by its result. -/
theorem processRead_continues (handlers : List Handler) (request : Request) (s₁ : Conn) :
    ∃ o s', (processRead handlers request).run s₁ = .ok (o, s') ∧
      (∃ result s₂, RunsContinue handlers request s₁ result s₂ ∧ s₂.KeepsInput s' ∧ s₂.WritesNothing s' ∧
        ((∃ c ∈ o.calls, c.operation = .modify) → request.previewSize < 0 ∨ result = some true) ∧
        (result = some false → (∀ c ∈ o.calls, c.operation ≠ .modify) ∧ o.response.header.status = .serverError)) ∧
      (∀ c ∈ o.calls, ∃ handler ∈ handlers, handler.name ≠ [] ∧ c.name = handler.name) ∧
      ((∀ handler ∈ handlers, handler.name = []) → o.calls = [] ∧ o.response.header.status = .serverError) := by
  by_cases hpreview : request.previewSize ≥ 0
  · obtain ⟨request', response', previews, s₂, hloop, hpreviews, hend⟩ := processPreview_spec request handlers none s₁
    obtain ⟨o, s', hrest, hkeeps, hafter, hloaded, hanswer, hnone⟩ :=
      processRead_of_preview (by rw [if_pos hpreview]; exact hloop) hpreviews
    refine ⟨o, s', hrest, ?_⟩
    cases hend with
    | unloaded h =>
      have hcalls := hnone h rfl
      refine ⟨⟨none, s₁, .never (.inr (continueResponse_of_unloaded h request)), hkeeps, hafter, ?_, nofun⟩, hloaded, fun _ => hcalls⟩
      rintro ⟨c, hc, -⟩
      rw [hcalls.1] at hc
      exact absurd hc List.not_mem_nil
    | answered hsome h answer =>
      obtain ⟨x, hx, hne⟩ := hsome
      refine ⟨⟨none, s₁, .never (.inr h), hkeeps, hafter, ?_, nofun⟩, hloaded, fun hall => absurd (hall x hx) hne⟩
      rintro ⟨c, hc, hmodify⟩
      exact absurd hmodify ((hanswer answer rfl).1 c hc)
    | continued h hrun =>
      exact ⟨⟨some true, s₂, .once hpreview h hrun, hkeeps, hafter, fun _ => .inr rfl, nofun⟩, hloaded, fun hall =>
        absurd ((continueResponse_of_unloaded hall request).symm.trans h) nofun⟩
    | @refused _ answer _ s3 _ h hrun hof =>
      obtain ⟨hmodify, hresponse⟩ := hanswer answer rfl
      have hstatus := (Response.ofStatus_made hof).1
      have hkeeps' := (Response.ofStatus_returns .serverError).keeps s3 answer s₂ hof
      refine ⟨⟨some false, s3, .once hpreview h hrun, IsTrans.trans _ _ _ hkeeps' hkeeps,
        IsTrans.trans _ _ _ (Response.ofStatus_writesNothing _ _ _ _ hof) hafter, ?_, fun _ => ⟨hmodify, hresponse ▸ hstatus⟩⟩, hloaded,
        fun hall => absurd ((continueResponse_of_unloaded hall request).symm.trans h) nofun⟩
      rintro ⟨c, hc, hcall⟩
      exact absurd hcall (hmodify c hc)
  · obtain ⟨o, s', hrest, hkeeps, hafter, hloaded, -, hnone⟩ := processRead_of_preview
      (by rw [if_neg hpreview]; exact rfl) (CallsOf.nil handlers .preview)
    exact ⟨o, s', hrest, ⟨none, s₁, .never (.inl (by omega)), hkeeps, hafter, fun _ => .inl (by omega), nofun⟩, hloaded,
      fun hall => hnone hall rfl⟩

end PreviewProtocolAux

open PreviewProtocolAux

/-- Every run of `process` meets the preview protocol. -/
theorem process_previewSafe (handlers : List Handler) (reqHeader : RequestHeader) (s : Conn) : ∃ request s₁ o s',
    (readReqData (Request.new reqHeader)).run s = .ok ((request, true), s₁) ∧ (process handlers reqHeader).run s = .ok (o, s') ∧
      PreviewSafe handlers request s s₁ o s' := by
  obtain ⟨⟨request, read⟩, s₁, hread, -, rfl⟩ := readReqData_returns (Request.new reqHeader) s
  have hquiet := readReqData_writesNothing _ _ _ _ hread
  have hprocess : (process handlers reqHeader).run s = (processRead handlers request).run s₁ := by
    rw [process, run_bind_of_ok hread]
    rfl
  obtain ⟨o, s', hrun, ⟨result, s₂, hruns, hkeeps, hafter, hmodify, hrefused⟩, hloaded, hunloaded⟩ := processRead_continues handlers request s₁
  obtain ⟨responses, hwrites, hlen, hall⟩ := runsContinue_writes hruns
  exact ⟨request, s₁, o, s', hread, hprocess.trans hrun,
    { writes := ⟨responses, writes_widen hquiet hwrites hafter, hlen, hall⟩
      continues := ⟨result, s₂, hruns, hkeeps, hafter, hmodify, hrefused⟩
      loaded := hloaded
      unloaded := hunloaded }⟩

end BitzServer
