import BitzServer.Theorems.RequestBudget

/-!
# What a response says about the connection

A response says `keep-alive` if its request does; the loop goes on if the request says so and requests are left. The two differ for the
request that uses up the budget.
-/

namespace BitzServer

open Feed

/-- The response says that the connection is kept. -/
def Response.keepsAlive (response : Response) : Bool := response.header.value (bytes "Connection") == bytes "keep-alive"

/-- The modifier leaves the `Connection` header of its responses as it is made. -/
def Handler.LeavesConnection (handler : Handler) : Prop :=
  ∀ request, (handler.modifier.preview request).keepsAlive = false ∧ (handler.modifier.modify request).keepsAlive = false

/-- Each response says `keep-alive` exactly if another request header is read after it. -/
def Truthful : List Worker.LoopEvent → Prop
  | [] => True
  | event :: events => (∀ pass ∈ event.pass, ∀ response ∈ pass.response, (response.keepsAlive = true ↔ events ≠ [])) ∧ Truthful events

/-- A request that uses up the budget does not ask to keep the connection. -/
def LastRequestCloses (events : List Worker.LoopEvent) : Prop :=
  ∀ event ∈ events, event.maxRequests = 1 → ∀ pass ∈ event.pass, pass.response.isSome = true → pass.reqHeader.keepsAlive = false

instance (events : List Worker.LoopEvent) : Decidable (LastRequestCloses events) :=
  inferInstanceAs (Decidable (∀ event ∈ events, event.maxRequests = 1 → ∀ pass ∈ event.pass, pass.response.isSome = true →
    pass.reqHeader.keepsAlive = false))

namespace ConnectionHeaderAux

/-! ## The responses before `serve_client` attaches to them -/

/-- The value of a header that is attached. -/
theorem value_attach {key : Bytes} (hkey : trim key ≠ bytes "Encapsulated") (h : Header) (value key' : Bytes) {h' : Header}
    (hattach : h.attach key value = .ok h') : h'.value key' = if key' = trim key then trim value else h.value key' := by
  rw [Header.attach_of_ne hkey] at hattach
  obtain rfl := Except.ok.inj hattach
  unfold Header.value
  by_cases heq : key' = trim key
  · rw [if_pos heq, heq, KeyMap.lookup_set_self, Option.getD_some]
  · rw [if_neg heq, KeyMap.lookup_set_of_ne _ heq]

/-- Attaching another header leaves the connection. -/
theorem attach_leaves {key : Bytes} (hkey : trim key ≠ bytes "Encapsulated") (hconn : bytes "Connection" ≠ trim key) (h : Header)
    (value : Bytes) : Returns Conn.KeepsInput (fun h' => h'.value (bytes "Connection") = h.value (bytes "Connection"))
      (liftM (h.attach key value) : SockM Header) := by
  have hattach := Header.attach_of_ne hkey h value
  refine Returns.lift hattach ?_
  rw [value_attach hkey h value _ hattach, if_neg hconn]

/-- A new response header does not say `keep-alive`. -/
theorem new_leaves (status : Status) :
    Returns Conn.KeepsInput (fun h => h.value (bytes "Connection") ≠ bytes "keep-alive") (ResponseHeader.new status) := by
  have hnew : Header.new.value (bytes "Connection") ≠ bytes "keep-alive" := by decide
  unfold ResponseHeader.new
  refine Returns.bind now_within fun stamp _ => ?_
  refine Returns.bind (attach_leaves (by decide) (by decide) _ _) fun h1 hh1 => ?_
  refine Returns.bind (attach_leaves (by decide) (by decide) _ _) fun h2 hh2 => ?_
  refine Returns.bind (attach_leaves (by decide) (by decide) _ _) fun h3 hh3 => ?_
  have h3ne : h3.value (bytes "Connection") ≠ bytes "keep-alive" := by
    rw [hh3, hh2, hh1]
    exact hnew
  refine Returns.bind (R := Conn.KeepsInput) (Q := fun h => h.value (bytes "Connection") ≠ bytes "keep-alive") ?_
    fun h4 hh4 => Returns.pure hh4
  split
  · have hattach := @Header.attach_of_ne (bytes "Connection") (by decide) h3 (bytes "close")
    refine Returns.lift hattach ?_
    rw [value_attach (by decide) h3 _ _ hattach, if_pos (by decide)]
    decide
  · exact Returns.pure h3ne

/-- A new response of a status does not say `keep-alive`. -/
theorem ofStatus_leaves (status : Status) : Returns Conn.Shrinks (fun r => r.keepsAlive = false) (Response.ofStatus status) := by
  refine Returns.mono (R := Conn.KeepsInput) (Q := fun r => r.keepsAlive = false) ?_ Conn.KeepsInput.shrinks fun _ h => h
  exact Returns.bind (new_leaves status) fun h hh => Returns.pure (by simpa [Response.keepsAlive] using hh)

/-- The response of `process_modify` is that of a modifier, if it is not the one it starts with. -/
theorem processModify_leaves (request : Request) : ∀ {handlers : List Handler}, (∀ handler ∈ handlers, handler.LeavesConnection) →
    ∀ {response : Option Response}, (∀ r ∈ response, r.keepsAlive = false) →
    ∀ r ∈ (processModify request handlers response).1, r.keepsAlive = false
  | [], _, _, h => h
  | handler :: handlers, hall, response, h => by
    have hrest := fun x hx => hall x (List.mem_cons_of_mem handler hx)
    have hmodify : ∀ r ∈ some (handler.modifier.modify request), r.keepsAlive = false := by
      rintro r ⟨⟩
      exact (hall handler List.mem_cons_self request).2
    rw [processModify]
    split
    · exact processModify_leaves request hrest h
    · dsimp only
      split
      · exact hmodify
      · exact processModify_leaves request hrest hmodify

/-- The response of `process_preview` is that of a modifier or a new one, if it is not the one it starts with. -/
theorem processPreview_leaves (request : Request) : ∀ {handlers : List Handler}, (∀ handler ∈ handlers, handler.LeavesConnection) →
    ∀ {response : Option Response}, (∀ r ∈ response, r.keepsAlive = false) →
    Returns Conn.Shrinks (fun outcome => ∀ r ∈ outcome.2.1, r.keepsAlive = false) (processPreview request handlers response)
  | [], _, _, h => Returns.pure h
  | handler :: handlers, hall, response, h => by
    have hrest := fun x hx => hall x (List.mem_cons_of_mem handler hx)
    have hpreview : ∀ r ∈ some (handler.modifier.preview request), r.keepsAlive = false := by
      rintro r ⟨⟩
      exact (hall handler List.mem_cons_self request).1
    unfold processPreview
    split
    · exact processPreview_leaves request hrest h
    · dsimp only
      split
      · exact Returns.pure hpreview
      · split
        · refine Returns.bind (previewContinue_within _ request) fun r _ => ?_
          split
          · exact Returns.pure (by simp)
          · refine Returns.bind (ofStatus_leaves _) fun r hr => Returns.pure ?_
            rintro _ ⟨⟩
            exact hr
        · exact Returns.bind (processPreview_leaves request hrest hpreview) fun _ hr => Returns.pure hr

/-- No response of `process` says `keep-alive`. -/
theorem process_leaves {handlers : List Handler} (hall : ∀ handler ∈ handlers, handler.LeavesConnection) (reqHeader : RequestHeader) :
    Returns Conn.Shrinks (fun outcome => outcome.response.keepsAlive = false) (process handlers reqHeader) := by
  unfold process
  refine Returns.bind (readReqData_returns _) ?_
  rintro ⟨request, read⟩ hread
  obtain rfl : read = true := hread
  refine Returns.bind (R := Conn.Shrinks) (Q := fun outcome => ∀ r ∈ outcome.2.1, r.keepsAlive = false) ?_ ?_
  · split
    · exact processPreview_leaves request hall (by simp)
    · exact Returns.pure (by simp)
  rintro ⟨request', response, previews⟩ hpreview
  cases response with
  | some response => exact Returns.bind (Returns.pure (hpreview response rfl)) fun r hr => Returns.pure hr
  | none =>
    have hmodify := @processModify_leaves request' handlers hall none (by simp)
    rcases hresponse : processModify request' handlers none with ⟨_ | response, calls⟩
    · simp only [hresponse]
      exact Returns.bind (ofStatus_leaves _) fun r hr => Returns.pure hr
    · rw [hresponse] at hmodify
      simp only [hresponse]
      exact Returns.bind (Returns.pure (hmodify response rfl)) fun r hr => Returns.pure hr

/-- No response of `OptionsRequestHandler::process` says `keep-alive`. -/
theorem processOptions_leaves {methods : List Bytes} (hne : methods ≠ []) (reqHeader : RequestHeader) :
    Returns Conn.KeepsInput (fun outcome => outcome.response.keepsAlive = false) (processOptions methods reqHeader) := by
  obtain ⟨method, rest, rfl⟩ := List.exists_cons_of_ne_nil hne
  unfold processOptions
  refine Returns.bind (new_leaves .ok) fun header hheader => ?_
  refine Returns.bind (Returns.lift (Q := fun m => m = method) rfl rfl) fun m _ => ?_
  refine Returns.bind (attach_leaves (by decide) (by decide) _ _) fun h1 hh1 => ?_
  refine Returns.bind (attach_leaves (by decide) (by decide) _ _) fun h2 hh2 => ?_
  refine Returns.bind (attach_leaves (by decide) (by decide) _ _) fun h3 hh3 => ?_
  refine Returns.bind (Returns.pure (Q := fun r => r.keepsAlive = false) ?_) fun r hr => Returns.pure hr
  unfold Response.keepsAlive
  rw [beq_eq_false_iff_ne]
  show h3.value (bytes "Connection") ≠ _
  rw [hh3, hh2, hh1]
  exact hheader

/-- Whichever handler answers, its response does not say `keep-alive`. -/
theorem respond_leaves {reqmod respmod : List Handler} (hall : ∀ handler ∈ reqmod ++ respmod, handler.LeavesConnection)
    (reqHeader : RequestHeader) :
    Returns Conn.Shrinks (fun r => r.2.keepsAlive = false) ((Worker.new reqmod respmod).respond reqHeader) := by
  have hmodifiers : ∀ handlers, (∀ handler ∈ handlers, handler.LeavesConnection) →
      (Worker.new reqmod respmod).findReqHandler reqHeader.request.method = some (.modifiers handlers) →
      Returns Conn.Shrinks (fun r => r.2.keepsAlive = false) ((Worker.new reqmod respmod).respond reqHeader) := by
    intro handlers hhandlers hfind
    unfold Worker.respond
    rw [hfind]
    exact Returns.bind (process_leaves hhandlers reqHeader) fun outcome houtcome => Returns.pure houtcome
  have hfind := Worker.findReqHandler_new reqmod respmod reqHeader.request.method
  by_cases h1 : reqHeader.request.method = bytes "RESPMOD"
  · exact hmodifiers respmod (fun x hx => hall x (List.mem_append_right _ hx)) (hfind.trans (if_pos h1))
  by_cases h2 : reqHeader.request.method = bytes "REQMOD"
  · exact hmodifiers reqmod (fun x hx => hall x (List.mem_append_left _ hx)) (hfind.trans ((if_neg h1).trans (if_pos h2)))
  rw [if_neg h1, if_neg h2] at hfind
  unfold Worker.respond
  rw [hfind]
  by_cases h3 : reqHeader.request.method = bytes "OPTIONS"
  · rw [if_pos h3]
    have hoptions := Returns.mono (processOptions_leaves (List.cons_ne_nil (bytes "REQMOD") [bytes "RESPMOD"]) reqHeader)
      Conn.KeepsInput.shrinks fun _ h => h
    exact Returns.bind hoptions fun outcome houtcome => Returns.pure houtcome
  · rw [if_neg h3]
    have hnew := Returns.mono (new_leaves .notAllowed) Conn.KeepsInput.shrinks fun _ h => h
    refine Returns.bind hnew fun header hheader => Returns.bind (Q := fun r => r.keepsAlive = false) (Returns.pure ?_)
      fun r hr => Returns.pure hr
    simpa [Response.keepsAlive] using hheader

/-! ## The response that is sent -/

/-- The response that is sent says `keep-alive` exactly if the request does. -/
theorem answer_keepsAlive (reqHeader : RequestHeader) {response : Response} (hresponse : response.keepsAlive = false) :
    Returns Conn.KeepsInput (fun r => r.keepsAlive = reqHeader.keepsAlive) (Worker.answer reqHeader response) := by
  unfold Worker.answer
  refine Returns.bind (R := Conn.KeepsInput)
    (Q := fun h => (h.value (bytes "Connection") == bytes "keep-alive") = reqHeader.keepsAlive) ?_ fun h hh => ?_
  · by_cases hkeeps : reqHeader.keepsAlive = true
    · rw [if_pos hkeeps]
      have hattach := @Header.attach_of_ne (bytes "Connection") (by decide) response.header.toHeader (bytes "keep-alive")
      refine Returns.lift hattach ?_
      rw [value_attach (by decide) _ _ _ hattach, if_pos (by decide), hkeeps]
      decide
    · rw [if_neg hkeeps]
      rw [Bool.not_eq_true] at hkeeps
      exact Returns.pure (hresponse.trans hkeeps.symm)
  · exact Returns.bind (sendResponse_within _) fun _ _ => Returns.pure hh

/-- A pass sends a response that says `keep-alive` exactly if its request does, or none. -/
theorem servePass_keepsAlive {reqmod respmod : List Handler} (hall : ∀ handler ∈ reqmod ++ respmod, handler.LeavesConnection) :
    Returns Conn.Shrinks (fun pass => ∀ response ∈ pass.response, response.keepsAlive = pass.reqHeader.keepsAlive)
      (Worker.new reqmod respmod).servePass := by
  have hget : Returns Conn.Shrinks (fun _ => True) (get : SockM Conn) := fun s => ⟨s, s, rfl, Std.Refl.refl s, trivial⟩
  have hread : Within Conn.Shrinks readReqHeader := fun s => by
    obtain ⟨h, s', hrun, hs'⟩ := readReqHeader_run s
    exact ⟨h, s', hrun, hs', trivial⟩
  unfold Worker.servePass
  refine Returns.bind hget fun start _ => Returns.bind hread fun reqHeader _ => ?_
  refine Returns.bind (Within.mono timedout_within Conn.KeepsInput.shrinks) fun out _ => ?_
  split
  · exact Returns.pure (by simp)
  · refine Returns.bind (respond_leaves hall reqHeader) fun r hr => ?_
    refine Returns.bind (Returns.mono (answer_keepsAlive r.1 hr) Conn.KeepsInput.shrinks fun _ h => h) fun response hresponse => ?_
    refine Returns.pure ?_
    rintro _ ⟨⟩
    exact hresponse

/-- Of the passes on one connection only the last one can say what is not true, and it does if it uses up the budget and is asked to
keep the connection. -/
theorem serveClientPasses_truthful {reqmod respmod : List Handler} (hall : ∀ handler ∈ reqmod ++ respmod, handler.LeavesConnection) :
    ∀ (fuel : Nat) (maxRequests : UInt32) (s : Conn), 0 < maxRequests → maxRequests.toNat ≤ fuel → ∃ left event events s',
      ((Worker.new reqmod respmod).serveClientPasses fuel maxRequests).run s = .ok ((left, event :: events), s') ∧
      (Truthful (event :: events) ↔ LastRequestCloses (event :: events)) := by
  intro fuel
  induction fuel with
  | zero =>
    intro maxRequests s hpos hfuel
    have hpred := RequestBudgetAux.toNat_pred hpos
    omega
  | succ fuel ih =>
    intro maxRequests s hpos hfuel
    have hpred := RequestBudgetAux.toNat_pred hpos
    obtain ⟨pass, s1, hpass, -, hkeeps⟩ := servePass_keepsAlive hall s
    have hhead : ∀ {events : List Worker.LoopEvent}, (∀ p ∈ some pass, ∀ response ∈ p.response,
        (response.keepsAlive = true ↔ events ≠ [])) ↔ (pass.response.isSome = true → (pass.reqHeader.keepsAlive = true ↔ events ≠ [])) := by
      intro events
      cases hresponse : pass.response with
      | none => simp [hresponse]
      | some response =>
        have := hkeeps response hresponse
        simp [hresponse, this]
    by_cases hlast : maxRequests - 1 = 0 ∨ pass.goesOn = false
    · refine ⟨_, _, _, s1, RequestBudgetAux.serveClientPasses_last hpass hlast fuel, ?_⟩
      have hone : maxRequests - 1 = 0 ↔ maxRequests = 1 := by
        constructor
        · intro hzero
          rw [hzero] at hpred
          exact UInt32.toNat.inj hpred.symm
        · rintro rfl
          rfl
      rw [Truthful, hhead]
      simp only [Truthful, and_true, LastRequestCloses, List.mem_singleton, forall_eq, Option.mem_some_iff, forall_eq', ne_eq,
        not_true_eq_false, iff_false, Bool.not_eq_true]
      rw [Pass.goesOn, Bool.and_eq_false_iff, hone] at hlast
      constructor
      · exact fun h _ hsome => h hsome
      · intro h hsome
        rcases hlast with hone | hnone | hcloses
        · exact h hone hsome
        · rw [hnone] at hsome
          exact absurd hsome (by decide)
        · exact hcloses
    · rw [not_or, Bool.not_eq_false] at hlast
      have hnext : 0 < maxRequests - 1 := UInt32.pos_iff_ne_zero.mpr hlast.1
      obtain ⟨left, event, events, s2, hrest, hiff⟩ := ih (maxRequests - 1) s1 hnext (by omega)
      refine ⟨left, _, event :: events, s2, RequestBudgetAux.serveClientPasses_next hpass hnext hlast.2 hrest, ?_⟩
      have hgoes := hlast.2
      rw [Pass.goesOn, Bool.and_eq_true] at hgoes
      have hne : maxRequests ≠ 1 := by
        rintro rfl
        exact hlast.1 rfl
      rw [Truthful, hhead, hiff]
      constructor
      · rintro ⟨-, hrest⟩ e he
        rcases List.mem_cons.mp he with rfl | he
        · exact fun hone => absurd hone hne
        · exact hrest e he
      · exact fun h => ⟨fun _ => iff_of_true hgoes.2 (List.cons_ne_nil _ _), fun e he => h e (List.mem_cons_of_mem _ he)⟩

end ConnectionHeaderAux

open ConnectionHeaderAux

/-- On every connection `serve_client` returns, and its responses say `keep-alive` exactly where another request header is read, if and
only if a request that uses up the budget does not ask to keep the connection. -/
theorem truthful_iff {reqmod respmod : List Handler} (hall : ∀ handler ∈ reqmod ++ respmod, handler.LeavesConnection)
    {maxRequests : UInt32} (hpos : 0 < maxRequests) (s : Conn) : ∃ left events s',
      ((Worker.new reqmod respmod).serveClientPasses UInt32.size maxRequests).run s = .ok ((left, events), s') ∧
      (Truthful events ↔ LastRequestCloses events) := by
  obtain ⟨left, event, events, s', hrun, hiff⟩ := serveClientPasses_truthful hall UInt32.size maxRequests s hpos
    (Nat.le_of_lt (UInt32.toNat_lt_size _))
  exact ⟨left, event :: events, s', hrun, hiff⟩

/-- A request that asks to keep the connection. -/
def keepAliveRequest : Bytes := bytes "OPTIONS a ICAP/1.0\r\nConnection: keep-alive\r\n\r\n"

/-- With a budget of two, a request that asks to keep the connection and one that does not. -/
theorem truthful_two : ∃ left events s', ((Worker.new [] []).serveClientPasses UInt32.size 2).run
    (Conn.ofInput (keepAliveRequest ++ bytes "OPTIONS a ICAP/1.0\r\n\r\n")) = .ok ((left, events), s') ∧
      LastRequestCloses events ∧ Truthful events := by
  let s := Conn.ofInput (keepAliveRequest ++ bytes "OPTIONS a ICAP/1.0\r\n\r\n")
  obtain ⟨left, events, s', hrun, hiff⟩ : ∃ left events s', ((Worker.new [] []).serveClientPasses UInt32.size 2).run s =
      .ok ((left, events), s') ∧ (Truthful events ↔ LastRequestCloses events) := truthful_iff (by simp) (by decide) s
  have heval : (((Worker.new [] []).serveClientPasses UInt32.size 2).run s).toOption.map
      (fun r => decide (LastRequestCloses r.1.2)) = some true := by decide +kernel
  rw [hrun] at heval
  have hcloses : LastRequestCloses events := of_decide_eq_true (Option.some.inj heval)
  exact ⟨left, events, s', hrun, hcloses, hiff.mpr hcloses⟩

namespace ConnectionHeaderAux

/-- The response to that request says `keep-alive`. -/
theorem servePass_keepAliveRequest : ∃ pass response s', (Worker.new [] []).servePass.run (Conn.ofInput keepAliveRequest) =
    .ok (pass, s') ∧ pass.response = some response ∧ response.keepsAlive = true := by
  obtain ⟨pass, s', hrun, -, -⟩ := Worker.servePass_run [] [] (Conn.ofInput keepAliveRequest)
  have heval : ((Worker.new [] []).servePass.run (Conn.ofInput keepAliveRequest)).toOption.map
      (fun r => r.1.response.map Response.keepsAlive) = some (some true) := by decide +kernel
  rw [hrun] at heval
  obtain ⟨response, hresponse, hkeeps⟩ := Option.map_eq_some_iff.mp (Option.some.inj heval)
  exact ⟨pass, response, s', hrun, hresponse, hkeeps⟩

end ConnectionHeaderAux

/-- With a budget of one the only response says `keep-alive`, and the connection is closed. -/
theorem truthful_false : ¬∀ (maxRequests : UInt32) (s : Conn), 0 < maxRequests → ∀ left events s',
    ((Worker.new [] []).serveClientPasses UInt32.size maxRequests).run s = .ok ((left, events), s') → Truthful events := by
  intro h
  obtain ⟨pass, response, s', hpass, hresponse, hkeeps⟩ := servePass_keepAliveRequest
  have hsize : UInt32.size = (2 ^ 32 - 1) + 1 := rfl
  have hone : (1 : UInt32) - 1 = 0 := by decide
  have hrun := RequestBudgetAux.serveClientPasses_last hpass (.inl hone) (2 ^ 32 - 1)
  rw [← hsize] at hrun
  have htruth := (h 1 _ (by decide) _ _ _ hrun).1 pass rfl response hresponse
  exact htruth.mp hkeeps rfl

end BitzServer
