import BitzServer.Theorems.BrokenConnection
import BitzServer.Theorems.EchoConversation

/-!
# Waiting for the `100 Continue`

A client that sends a preview may not send the rest before it has seen the whole `100 Continue`, and the server has to send it without the
rest. With `Echo` neither waits for the other: the server has read exactly the preview by then, and has flushed its answer.
-/

namespace BitzServer

open Feed RequestDataAux EchoServiceAux DialogueAux

/-- A client that sends the first part of a request, and the remainder once it has seen the bytes it waits for. -/
def waitingClient (awaited first remainder : Bytes) : Peer Byte Byte where
  sends seen := if awaited <+: seen then first ++ remainder else first
  goesOn := by
    intro seen seen' h
    by_cases hseen : awaited <+: seen
    · rw [if_pos hseen, if_pos (hseen.trans h)]
    · rw [if_neg hseen]
      split
      · exact List.prefix_append _ _
      · exact List.prefix_refl _

/-- The part of a pass of `serve_client` behind the request header: the response is made and sent. -/
def Worker.exchange (worker : Worker) (reqHeader : RequestHeader) : SockM Response := do
  let r ← worker.respond reqHeader
  Worker.answer r.1 r.2

namespace PreviewHandshakeAux

open EncapsulatedResponseAux EchoConversationAux ReadBackAux BrokenConnectionAux

theorem headBytes_pos (header : ResponseHeader) : 0 < (headBytes header).length := by
  simp [headBytes, crlf]

/-- The `100 Continue` consists of its head, which is flushed. -/
theorem sendResponse_continue (echo : Echo) {s : Conn} (hg : s.good = true) (hf : s.faults = []) :
    (sendResponse echo.continue).run s = .ok (true, { s with
      sent := s.sent ++ headBytes echo.continue.header, flushed := s.sent ++ headBytes echo.continue.header }) := by
  have hpayload := echo.continue_payload
  have hsend := sendResponse_run echo.continue (by rw [hpayload]; decide) (by rw [hpayload]; decide) hg hf
  have hcontent : (contentWrites echo.continue.payload).flatMap Prod.snd = [] := by
    rw [hpayload]
    rfl
  rwa [hcontent, List.append_nil] at hsend

/-- The request after the preview has been read. -/
def previewed (header : RequestHeader) (kind : BodyKind) (reqHeader resHeader : Bytes) (P : ChunkedBody) : Request :=
  (Request.new header).setPayload (Message.payload ⟨reqHeader, resHeader, some (kind, P)⟩)

/-- The handler of the method goes on with the preview, once it has been read. -/
theorem exchange_previewed {echo : Echo} {name : Bytes} {header : RequestHeader} {kind : BodyKind} {reqHeader resHeader : Bytes}
    {P : ChunkedBody} (h : AnnouncesBody header kind reqHeader resHeader) (hP : P.Small) (htP : P.trailers = []) {s s' : Conn} {o : Outcome}
    (rest : Bytes) (hg : s.good = true) (hs : s.unread = reqHeader ++ resHeader ++ P.wire ++ rest)
    (hrun : (processRead [{ name := name, modifier := echo.modifier }] (previewed header kind reqHeader resHeader P)).run
      { s with unread := rest } = .ok (o, s')) :
    ((Worker.ofEcho echo name).exchange header).run s = (Worker.answer o.reqHeader o.response).run s' := by
  have hread := readReqData_whole h.kind_ne (h.lists P) hP htP s rest hg hs
  have hprocess : (process [{ name := name, modifier := echo.modifier }] header).run s = .ok (o, s') := by
    rw [process, run_bind_of_ok hread]
    exact hrun
  have hfind : (Worker.ofEcho echo name).findReqHandler header.request.method =
      some (.modifiers [{ name := name, modifier := echo.modifier }]) := by
    rw [Worker.ofEcho, h.method, Worker.findReqHandler_new]
    cases kind with
    | req => rfl
    | res => rfl
    | opt => exact absurd rfl h.kind_ne
  have hrespond : ((Worker.ofEcho echo name).respond header).run s = .ok ((o.reqHeader, o.response), s') := by
    rw [Worker.respond, hfind]
    exact run_bind_of_ok hprocess
  rw [Worker.exchange, run_bind_of_ok hrespond]

/-- Where the rest has been read whole, there was an end of the stream without it. -/
theorem dead_of_whole {request request' : Request} {w : Bytes} (hne : w ≠ []) (hread : Consumes (readReqContinueData request) w (request', true))
    {s s' : Conn} {r : Request × Bool} (hg : s.good = true) (hu : s.unread = []) (hrun : (readReqContinueData request).run s = .ok (r, s')) :
    s'.good = false := by
  by_contra hgood
  rw [Bool.not_eq_false] at hgood
  obtain ⟨_, hlong, rfl⟩ := (readReqContinueData_online w request).live (s := s) hg hrun hgood
  have hmore : (s.more w).unread = w ++ [] := by rw [Conn.more, hu, List.nil_append, List.append_nil]
  obtain ⟨-, heq⟩ := Prod.mk.inj (Except.ok.inj (hlong.symm.trans (hread (s.more w) [] hg hmore)))
  have hnil : s'.unread ++ w = [] := congrArg Conn.unread heq
  exact hne (List.append_eq_nil_iff.mp hnil).2

/-- The payload of the response can be read. -/
theorem readable_echoed {kind : BodyKind} {reqHeader resHeader b : Bytes} {p : Payload} (hp : Echoed kind reqHeader resHeader b p)
    (hkind : kind ≠ .opt) (hb : b ≠ []) (hsize : b.length ≤ icapBufferSize) (hgrammar : kind = .req → reqHeader ≠ [] ∧ resHeader = [])
    (hres : kind = .res → resHeader ≠ []) (hsections : reqHeader.length + resHeader.length < 2 ^ 30) : ReadablePayload p := by
  obtain ⟨h1, h2, h3, h4⟩ := hp
  cases kind with
  | opt => exact absurd rfl hkind
  | req =>
    obtain ⟨hne, hnil⟩ := hgrammar rfl
    rw [if_pos rfl] at h1 h2
    rw [if_neg nofun] at h4
    refine ⟨.inr h4, fun _ => h3.trans hnil, ⟨fun _ => .inl (h1 ▸ hne), fun hnone => absurd (h2.symm.trans hnone.1) hb⟩, ?_, ?_⟩
    · rw [h2, h4]
      exact ⟨hsize, Nat.zero_le _⟩
    · rwa [h1, h3]
  | res =>
    rw [if_neg nofun] at h1 h2
    rw [if_pos rfl] at h4
    refine ⟨.inl h2, fun hne => absurd h2 hne, ⟨fun _ => .inr (h3 ▸ hres rfl), fun hnone => absurd (h4.symm.trans hnone.2) hb⟩, ?_, ?_⟩
    · rw [h2, h4]
      exact ⟨Nat.zero_le _, hsize⟩
    · rw [h1, h3]
      exact lt_of_le_of_lt (Nat.add_le_add_right (Nat.zero_le _) _) hsections

/-- A client that sends some bytes first, whatever it has seen. -/
theorem sends_append (awaited head first remainder seen : Bytes) :
    (waitingClient awaited (head ++ first) remainder).sends seen = head ++ (waitingClient awaited first remainder).sends seen := by
  show (if awaited <+: seen then head ++ first ++ remainder else head ++ first) =
    head ++ if awaited <+: seen then first ++ remainder else first
  split
  · exact List.append_assoc ..
  · rfl

/-- A pass reads the request header, and the exchange is what is behind it. -/
theorem servePass_exchange {worker : Worker} {header : RequestHeader} {response : Response} {s s₁ s' : Conn}
    (hread : readReqHeader.run s = .ok (header, s₁)) (hg : s₁.good = true) (h : (worker.exchange header).run s₁ = .ok (response, s')) :
    ∃ pass, worker.servePass.run s = .ok (pass, s') ∧ pass.response = some response := by
  obtain ⟨r, s₂, hrespond, hanswer⟩ := exists_of_run_bind h
  have htimedout : timedout.run s₁ = .ok (false, s₁) := by
    show Except.ok (s₁.stalls && !s₁.good && !s₁.broken, s₁) = _
    rw [hg, Bool.not_true, Bool.and_false, Bool.false_and]
  refine ⟨{ start := s.unread, reqHeader := r.1, response := some response }, ?_, rfl⟩
  rw [Worker.servePass, run_bind_of_ok (show (get : SockM Conn).run s = .ok (s, s) from rfl), run_bind_of_ok hread,
    run_bind_of_ok htimedout, if_neg Bool.false_ne_true, run_bind_of_ok hrespond, run_bind_of_ok hanswer]
  rfl

/-- The exchange behind the request header, with a client that waits for the whole `100 Continue` before it sends the remainder of a body. -/
theorem exchange_handshake (echo : Echo) (hdate : echo.ok.header.Dated) {name : Bytes} (hname : name ≠ []) {header : RequestHeader}
    {kind : BodyKind} {reqHeader resHeader b : Bytes} {P Q : ChunkedBody} (h : AnnouncesBody header kind reqHeader resHeader)
    (hres : kind = .res → resHeader ≠ []) (hsections : reqHeader.length + resHeader.length < 2 ^ 30) (hsize : b.length ≤ icapBufferSize)
    (hframing : (Framing.preview P Q).Carries header b) {s : Conn} (hg : s.good = true) (hf : s.faults = []) (hu : s.unread = []) :
    let service := (Worker.ofEcho echo name).exchange header
    let awaited := s.sent ++ headBytes echo.continue.header
    let client := waitingClient awaited (reqHeader ++ resHeader ++ P.wire) Q.wire
    (∃ response s₁, service.run (s.more (client.sends s.sent)) = .ok (response, s₁) ∧ s₁.sent = awaited ∧ s₁.flushed = awaited) ∧
      ∃ response s₂ wire, service.run (s.more (client.sends awaited)) = .ok (response, s₂) ∧ response.header.status = .ok ∧
        s₂.sent = awaited ++ wire ∧ s₂.flushed = awaited ++ wire ∧
        ∀ (t : Conn) (rest : Bytes), t.good = true → t.unread = wire ++ rest → ∃ h t' request, readReqHeader.run t = .ok (h, t') ∧
          (readReqData (Request.new h)).run t' = .ok ((request, true), { t with unread := rest }) ∧
          Echoed kind reqHeader resHeader b request.payload := by
  intro service awaited client
  obtain ⟨hpreview, hb, hQne, hieof, hQ, htQ⟩ := hframing.2
  obtain ⟨hP, htP⟩ : P.Small ∧ P.trailers = [] := hframing.1
  obtain ⟨hreq, hresHeader, hbody, hother, hlast⟩ := message_payload h.kind_ne reqHeader resHeader P
  have hpreviewSize : (previewed header kind reqHeader resHeader P).previewSize ≥ 0 :=
    le_of_le_of_eq hpreview (previewSize_setPayload (Request.new header) _).symm
  have hpayload : (previewed header kind reqHeader resHeader P).payload.ieof = false := hlast.trans hieof
  obtain ⟨x, hx⟩ := getLast?_preview h.kind_ne h.grammar (h.lists P) h.length
  rw [if_pos (.inl h.nonempty)] at hx
  obtain ⟨p, hread, hfield, hkeep, hreq', hres'⟩ :=
    readReqContinueData_body (previewed header kind reqHeader resHeader P) h.kind_ne hx hQ htQ
  refine ⟨?_, ?_⟩
  · -- what the client has seen at the start does not begin with what it waits for
    have hfirst : client.sends s.sent = reqHeader ++ resHeader ++ P.wire := by
      refine if_neg fun hseen => ?_
      have hlen := hseen.length_le
      have hpos := headBytes_pos echo.continue.header
      rw [List.length_append] at hlen
      omega
    obtain ⟨r, s', hdata, -, hresult⟩ := readReqContinueData_returns (previewed header kind reqHeader resHeader P)
      { s with unread := [], sent := awaited, flushed := awaited }
    obtain ⟨request', result⟩ := r
    obtain rfl : result = true := hresult
    have hcontinue : (previewContinue echo.continue (previewed header kind reqHeader resHeader P)).run { s with unread := [] } =
        .ok ((request', true), s') := by
      rw [previewContinue, if_neg (by simp [hpayload]), run_bind_of_ok (sendResponse_continue echo (by exact hg) (by exact hf))]
      exact hdata
    obtain ⟨o, hrun, -⟩ := processRead_continued hname hpreviewSize hcontinue
    have hunread : (s.more (reqHeader ++ resHeader ++ P.wire)).unread = reqHeader ++ resHeader ++ P.wire ++ [] := by
      rw [Conn.more, hu, List.nil_append, List.append_nil]
    have hexchange := exchange_previewed h hP htP [] (show (s.more _).good = true from hg) hunread hrun
    -- the end of the stream has been met, and nothing more is sent
    have hdead := dead_of_whole (List.ne_nil_of_length_pos Q.length_wire_pos) hread (by exact hg) (by rfl) hdata
    obtain ⟨response, s₁, hanswer, -⟩ := Worker.answer_within o.reqHeader o.response s'
    obtain ⟨-, hsent, hflushed⟩ := (answer_program o.reqHeader o.response).dead hanswer hdead
    obtain ⟨hsent', hflushed', -⟩ := readReqContinueData_writesNothing _ _ _ _ hdata
    rw [hfirst]
    exact ⟨response, s₁, hexchange.trans hanswer, hsent.trans hsent', hflushed.trans hflushed'⟩
  · have hsecond : client.sends awaited = reqHeader ++ resHeader ++ P.wire ++ Q.wire := if_pos (List.prefix_refl _)
    have hcontinue : (previewContinue echo.continue (previewed header kind reqHeader resHeader P)).run { s with unread := Q.wire } =
        .ok (((previewed header kind reqHeader resHeader P).setPayload p, true),
          { s with unread := [], sent := awaited, flushed := awaited }) := by
      rw [previewContinue, if_neg (by simp [hpayload]), run_bind_of_ok (sendResponse_continue echo (by exact hg) (by exact hf))]
      exact hread _ [] (by exact hg) (List.append_nil Q.wire).symm
    obtain ⟨o, hrun, ho⟩ := processRead_continued hname hpreviewSize hcontinue
    have hunread : (s.more (reqHeader ++ resHeader ++ P.wire ++ Q.wire)).unread = reqHeader ++ resHeader ++ P.wire ++ Q.wire := by
      rw [Conn.more, hu, List.nil_append]
    have hexchange := exchange_previewed h hP htP Q.wire (show (s.more _).good = true from hg) hunread hrun
    have hechoed : Echoed kind reqHeader resHeader b (echo.payload ((previewed header kind reqHeader resHeader P).setPayload p)) := by
      refine @echoed_modify echo _ _ _ _ _ _ h rfl (hreq'.trans hreq) (hres'.trans hresHeader) (hfield.trans ?_)
        fun k hk => (hkeep k hk).trans (hother k hk)
      rw [← hb, ← hbody]
      rfl
    have hbne : b ≠ [] := fun hnil => hQne (List.append_eq_nil_iff.mp (hb.trans hnil)).2
    have hp := readable_echoed hechoed h.kind_ne hbne hsize (fun hkind => ⟨h.nonempty.resolve_right (not_not.mpr (h.grammar hkind)),
      h.grammar hkind⟩) hres hsections
    have hanswer := answer_run o.reqHeader (r := echo.ok) hp (s := { s with unread := [], sent := awaited, flushed := awaited }) hg hf
    obtain ⟨_, _, hmade⟩ := echo.ok_made
    have hhead := (echoHead_made hmade hdate).answered o.reqHeader
    rw [ho, Echo.modify] at hexchange
    rw [hsecond]
    refine ⟨_, _, responseWire (answered o.reqHeader echo.ok) (echo.payload ((previewed header kind reqHeader resHeader P).setPayload p)),
      hexchange.trans hanswer, hhead.status, rfl, rfl, fun t rest hgt hut => ?_⟩
    obtain ⟨h', t', request, hreadHeader, -, hdata, hrequest⟩ := read_responseWire hhead.fresh hp (readableHead_echo hhead hp) hgt hut
    refine ⟨h', t', request, hreadHeader, hdata, ?_⟩
    rw [hrequest]
    exact hechoed

end PreviewHandshakeAux

open PreviewHandshakeAux EchoConversationAux ReadBackAux BrokenConnectionAux

namespace PreviewHandshakeAux

/-- The lines of a request header that announces three bytes of request header and a body with a preview. -/
def previewLines : List Bytes :=
  [bytes "REQMOD / ICAP/1.0", bytes "Preview: 30", bytes "Encapsulated: req-hdr=0, req-body=3"]

/-- What `read_req_header` makes of these lines. -/
theorem exists_previewLines : ∃ header, Consumes readReqHeader (blockLines previewLines ++ crlf) header ∧
    AnnouncesBody header .req (bytes "GET") [] ∧ (Request.new header).previewSize = 30 := by
  obtain ⟨header, hnew, -⟩ := RequestHeader.new_total (blockLines previewLines)
  have heval : (RequestHeader.new (blockLines previewLines)).toOption.map (fun h => (h.request.method, (Request.new h).previewSize,
      [Entity.nullBody, .optBody, .reqBody, .reqHdr, .resBody, .resHdr].map h.encapsulated)) =
      some (bytes "REQMOD", 30, [-1, -1, 3, 0, -1, -1]) := by decide +kernel
  rw [hnew] at heval
  obtain ⟨hmethod, hrest⟩ := Prod.mk.inj (Option.some.inj heval)
  obtain ⟨hpreview, hoffsets⟩ := Prod.mk.inj hrest
  have hencapsulated : header.encapsulated = previewHeader.encapsulated := by
    simp only [List.map_cons, List.map_nil, List.cons.injEq, and_true] at hoffsets
    obtain ⟨hnull, hopt, hreq, hreqHdr, hresBody, hresHdr⟩ := hoffsets
    funext e
    cases e with
    | nullBody => exact hnull.trans (by decide)
    | optBody => exact hopt.trans (by decide)
    | reqBody => exact hreq.trans (by decide)
    | reqHdr => exact hreqHdr.trans (by decide)
    | resBody => exact hresBody.trans (by decide)
    | resHdr => exact hresHdr.trans (by decide)
  refine ⟨header, fun s rest hg hu => ?_, { previewHeader_announces with method := hmethod, lists := fun P x => ?_ }, hpreview⟩
  · obtain ⟨h, s', hrun, hfit, -⟩ := readReqHeader_block (by decide) hg hu
    obtain ⟨hnew', rfl⟩ := hfit (by decide)
    obtain rfl := Except.ok.inj (hnew.symm.trans hnew')
    exact hrun
  · show _ ↔ header.encapsulated x.1 = x.2 ∧ 0 ≤ x.2
    rw [hencapsulated]
    exact previewHeader_announces.lists P x

end PreviewHandshakeAux

end BitzServer
