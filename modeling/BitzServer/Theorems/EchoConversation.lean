import BitzServer.Theorems.ConnectionFraming
import BitzServer.Theorems.Dialogue
import BitzServer.Theorems.EchoService
import BitzServer.Theorems.ResponseReadBack

/-!
# A conversation with the echo service

A client writes requests back to back, and a worker with `Echo` as the only modifier answers them: with the readers of the library the
client reads the payloads of its requests, in their order.
-/

namespace BitzServer

open Feed

/-- `strftime` has written a text for the date into its 80 characters. -/
def ResponseHeader.Dated (header : ResponseHeader) : Prop :=
  ∀ f ∈ header.headers, f.1 = bytes "Date" → f.2.length < 80 ∧ ∀ c ∈ f.2, isText c = true

/-- What `Echo` sends back of a request, but for `ieof`, which is not sent. -/
def WireRequest.echoed (r : WireRequest) : Payload where
  reqHeader := if r.method = bytes "REQMOD" then r.message.payload.reqHeader else []
  reqBody := if r.method = bytes "REQMOD" then r.message.payload.reqBody else []
  resHeader := r.message.payload.resHeader
  resBody := r.message.payload.resBody
  ieof := false

/-- The request is for the modifiers and is read whole, and a response with its payload can be read. -/
structure WireRequest.Echoable (r : WireRequest) : Prop where
  method : r.method = bytes "REQMOD" ∨ r.method = bytes "RESPMOD"
  drained : r.Drained
  readable : ReadablePayload r.echoed

/-- A client that reads a number of responses, for as long as they can be read. -/
def readResponses : Nat → SockM (List Payload)
  | 0 => return []
  | n + 1 => do
    let header ← readReqHeader
    let (response, status) ← readReqData (Request.new header)
    if status then return response.payload :: (← readResponses n) else return []

/-- A worker whose only modifier is `Echo`. -/
def Worker.ofEcho (echo : Echo) (name : Bytes) : Worker :=
  Worker.new [{ name := name, modifier := echo.modifier }] [{ name := name, modifier := echo.modifier }]

namespace EchoConversationAux

open EncapsulatedAux EncapsulatedResponseAux HeaderMapAux ReadBackAux RequestAux

/-! ## The head of a response -/

/-- A header that can be written on a line and read from it. -/
structure GoodField (key value : Bytes) : Prop where
  colon : 58 ∉ key
  text : (∀ c ∈ key, isText c = true) ∧ ∀ c ∈ value, isText c = true
  length : key.length + value.length ≤ pieceLength - 4

theorem isText_itoa (x : Int) : ∀ c ∈ itoa x, isText c = true := by
  intro c hc
  rcases mem_itoa hc with rfl | hc
  · decide
  · exact isText_of_isHexDigit c (isHexDigit_of_isDigit c hc)

theorem isText_istag (stamp : Stamp) : ∀ c ∈ ResponseHeader.istag stamp, isText c = true := by
  have hall : ∀ c ∈ bytes "BITZ-" ++ itoa stamp.rawTime ++ bytes "-" ++ itoa stamp.clockTime, isText c = true := by
    simp only [List.forall_mem_append]
    exact ⟨⟨⟨by decide, isText_itoa _⟩, by decide⟩, isText_itoa _⟩
  exact fun c hc => hall c (List.mem_of_mem_take hc)

theorem goodField_istag (stamp : Stamp) : GoodField (bytes "ISTag") (trim (ResponseHeader.istag stamp)) where
  colon := by decide
  text := ⟨by decide, fun c hc => isText_istag stamp c ((Fields.trim_sublist _).subset hc)⟩
  length := by
    have htrim : (trim (ResponseHeader.istag stamp)).length ≤ (ResponseHeader.istag stamp).length := (Fields.trim_sublist _).length_le
    have htake : (ResponseHeader.istag stamp).length ≤ 32 := List.length_take_le _ _
    exact (Nat.add_le_add_left (htrim.trans htake) _).trans (by decide)

theorem goodField_date {value : Bytes} (h : value.length < 80 ∧ ∀ c ∈ value, isText c = true) : GoodField (bytes "Date") value :=
  ⟨by decide, ⟨by decide, h.2⟩, (Nat.add_le_add_left h.1.le _).trans (by decide)⟩

/-- A new response, with its headers. -/
theorem ofStatus_eq {status : Status} (hstatus : status ≠ .continue) (s : Conn) : (Response.ofStatus status).run s = .ok (
    { header := {
        headers := KeyMap.set (bytes "Connection") (bytes "close") (KeyMap.set (bytes "Server") packageString
          (KeyMap.set (bytes "ISTag") (trim (ResponseHeader.istag (s.stamps 0))) (KeyMap.set (bytes "Date") (trim (s.stamps 0).date) [])))
        encapsulated := fun _ => -1, protocol := bytes "ICAP/1.0", status := status }
      payload := Payload.empty }, { s with stamps := fun i => s.stamps (i + 1) }) := by
  have hrun : now.run s = .ok (s.stamps 0, { s with stamps := fun i => s.stamps (i + 1) }) := rfl
  rw [Response.ofStatus, ResponseHeader.new, bind_assoc, run_bind_of_ok hrun, Header.attach_of_ne (by decide)]
  simp only [Header.attach_of_ne (by decide : trim (bytes "ISTag") ≠ bytes "Encapsulated"),
    Header.attach_of_ne (by decide : trim (bytes "Server") ≠ bytes "Encapsulated"),
    Header.attach_of_ne (by decide : trim (bytes "Connection") ≠ bytes "Encapsulated"), if_pos hstatus]
  rfl

/-- A response that is sent to a client that keeps the connection. -/
def kept (response : Response) : Response :=
  { response with header := { response.header with
      headers := KeyMap.set (bytes "Connection") (bytes "keep-alive") response.header.headers } }

/-- The response as it is sent to the client of a request. -/
def answered (reqHeader : RequestHeader) (response : Response) : Response := if reqHeader.keepsAlive then kept response else response

/-- What the head of a response of `Echo` consists of. -/
structure EchoHead (header : ResponseHeader) : Prop where
  protocol : header.protocol = bytes "ICAP/1.0"
  status : header.status = .ok
  fresh : ∀ e, header.encapsulated e = -1
  holds : ∃ d, header.Holds d
  fields : ∀ f ∈ header.headers, GoodField f.1 f.2

theorem echoHead_made {response : Response} {s s' : Conn} (hmade : (Response.ofStatus .ok).run s = .ok (response, s'))
    (hdate : response.header.Dated) : EchoHead response.header := by
  obtain ⟨rfl, -⟩ := Prod.mk.inj (Except.ok.inj ((ofStatus_eq (by decide) s).symm.trans hmade))
  refine ⟨rfl, rfl, fun _ => rfl, ?_, fun f hf => ?_⟩
  · have hdate := holds_set holds_new (s.stamps 0).date (by decide : trim (bytes "Date") ≠ bytes "Encapsulated")
    have histag := holds_set hdate (ResponseHeader.istag (s.stamps 0)) (by decide : trim (bytes "ISTag") ≠ bytes "Encapsulated")
    have hserver := holds_set histag packageString (by decide : trim (bytes "Server") ≠ bytes "Encapsulated")
    have hconnection : trim (bytes "Connection") ≠ bytes "Encapsulated" := by decide
    exact ⟨_, holds_of_headers (holds_set hserver (bytes "close") hconnection) rfl⟩
  · have hdate := hdate f hf
    rcases KeyMap.mem_set hf with rfl | hf
    · exact ⟨by decide, by decide, by decide⟩
    rcases KeyMap.mem_set hf with rfl | hf
    · exact ⟨by decide, by decide, by decide⟩
    rcases KeyMap.mem_set hf with rfl | hf
    · exact goodField_istag _
    rcases KeyMap.mem_set hf with rfl | hf
    · exact goodField_date (hdate rfl)
    · cases hf

/-- Keeping the connection sets one header. -/
theorem EchoHead.kept {response : Response} (h : EchoHead response.header) : EchoHead (kept response).header := by
  refine ⟨h.protocol, h.status, h.fresh, ?_, fun f hf => ?_⟩
  · obtain ⟨d, hd⟩ := h.holds
    exact ⟨_, holds_of_headers (holds_set hd (bytes "keep-alive") (by decide : trim (bytes "Connection") ≠ bytes "Encapsulated")) rfl⟩
  · rcases KeyMap.mem_set hf with rfl | hf
    · exact ⟨by decide, by decide, by decide⟩
    · exact h.fields f hf

theorem EchoHead.answered {response : Response} (h : EchoHead response.header) (reqHeader : RequestHeader) :
    EchoHead (answered reqHeader response).header := by
  unfold EchoConversationAux.answered
  split
  · exact h.kept
  · exact h

/-! ## Its lines -/

theorem isText_entryText (x : Entity × Int) : ∀ c ∈ entryText x, isText c = true := by
  have hname : ∀ e : Entity, ∀ c ∈ e.name, isText c = true := by
    intro e
    cases e <;> decide
  simp only [entryText, List.forall_mem_append]
  exact ⟨⟨hname x.1, by decide⟩, isText_itoa x.2⟩

theorem length_entryText {x : Entity × Int} (hx : 0 ≤ x.2 ∧ x.2 < 2 ^ 31) : (entryText x).length ≤ 20 := by
  have hname : ∀ e : Entity, e.name.length ≤ 9 := by
    intro e
    cases e <;> decide
  have hnumber : (itoa x.2).length ≤ 10 := by
    rw [itoa, if_neg (by omega), List.nil_append, List.length_map]
    exact Numeral.length_numeral_le (by decide) (by decide) (by omega)
  have hequals : (bytes "=").length = 1 := rfl
  have := hname x.1
  rw [entryText, List.length_append, List.length_append, hequals]
  omega

theorem isText_renderEntries (l : List (Entity × Int)) : ∀ c ∈ renderEntries l, isText c = true := by
  cases l with
  | nil => exact fun c hc => absurd hc List.not_mem_nil
  | cons x l =>
    rw [renderEntries, List.map_cons, Fields.intercalate_cons_eq, List.forall_mem_append]
    refine ⟨isText_entryText x, fun c hc => ?_⟩
    rw [List.flatMap_map] at hc
    obtain ⟨y, -, hc⟩ := List.mem_flatMap.mp hc
    have hseparator : ∀ c ∈ bytes ", ", isText c = true := by decide
    exact (List.mem_append.mp hc).elim (hseparator c) (isText_entryText y c)

theorem length_renderEntries : ∀ {l : List (Entity × Int)}, (∀ x ∈ l, 0 ≤ x.2 ∧ x.2 < 2 ^ 31) →
    (renderEntries l).length ≤ 22 * l.length
  | [], _ => Nat.zero_le _
  | [x], h => by
    have hx := length_entryText (h x List.mem_cons_self)
    rw [renderEntries, List.map_singleton, List.intercalate_singleton, List.length_singleton]
    omega
  | x :: y :: l, h => by
    have hseparator : (bytes ", ").length = 2 := rfl
    have hx := length_entryText (h x List.mem_cons_self)
    have ih := length_renderEntries fun z hz => h z (List.mem_cons_of_mem x hz)
    rw [renderEntries, List.map_cons] at ih
    rw [renderEntries, List.map_cons, List.map_cons, List.intercalate_cons_cons, List.length_append, List.length_append, hseparator,
      List.length_cons]
    omega

theorem entriesOf_offsets {p : Payload} (hp : ReadablePayload p) : ∀ x ∈ entriesOf p, 0 ≤ x.2 ∧ x.2 < 2 ^ 31 := by
  have hsection : ∀ {x : Entity × Int} {e : Entity} {content : Bytes} {n : Nat}, x ∈ sectionEntry e content n → x.2 = n := by
    intro x e content n hx
    unfold sectionEntry at hx
    split at hx
    · rw [List.mem_singleton.mp hx]
    · cases hx
  obtain ⟨hreq, hres⟩ := hp.bodies
  have hsections := hp.sections
  simp only [icapBufferSize] at hreq hres
  intro x hx
  simp only [entriesOf, List.mem_append] at hx
  rcases hx with (((hx | hx) | hx) | hx) | hx
  iterate 4
    have := hsection hx
    omega
  · split at hx
    · rw [List.mem_singleton.mp hx]
      dsimp only
      omega
    · cases hx

theorem entriesOf_length (p : Payload) : (entriesOf p).length ≤ 6 := by
  have hperm := List.subperm_of_subset (entriesOf_sorted p).2.1 fun e _ => Entity.mem_all e
  exact (List.length_map _).symm.trans_le hperm.length_le

/-- The head of a response of `Echo` can be read. -/
theorem readableHead_echo {r : Response} {p : Payload} (hr : EchoHead r.header) (hp : ReadablePayload p) :
    ReadableHead (r.setPayload p).header := by
  have hheaders : (r.setPayload p).header.headers = r.header.headers := Header.updateEncapsulated_headers _ _
  have hstr : (r.setPayload p).header.encapsulatedStr = renderEntries (entriesOf p) := by
    obtain ⟨hreq, hres⟩ := hp.bodies
    have hsections := hp.sections
    simp only [icapBufferSize] at hreq hres
    exact encapsulatedStr_setPayload hr.fresh (by omega)
  refine ⟨fun l hl => ?_, ?_, fun f hf => (hr.fields f (hheaders ▸ hf)).colon⟩
  · rcases List.mem_cons.mp hl with rfl | hl
    · have hstatus : statusLine (r.setPayload p).header = bytes "ICAP/1.0 200 OK" := by
        have hprotocol : (r.setPayload p).header.protocol = bytes "ICAP/1.0" := hr.protocol
        have hok : (r.setPayload p).header.status = .ok := hr.status
        rw [statusLine, hprotocol, hok]
        decide
      rw [hstatus]
      decide
    rcases List.mem_append.mp hl with hl | hl
    · obtain ⟨f, hf, rfl⟩ := List.mem_map.mp hl
      obtain ⟨-, ⟨hkey, hvalue⟩, hlen⟩ := hr.fields f (hheaders ▸ hf)
      have hcolon : (bytes ": ").length = 2 := rfl
      have hP : pieceLength = 1023 := rfl
      refine ⟨⟨List.ne_nil_of_length_pos ?_, ?_⟩, ?_⟩
      · rw [fieldText, List.length_append, List.length_append, hcolon]
        omega
      · rw [fieldText, List.length_append, List.length_append, hcolon]
        omega
      · simp only [fieldText, List.forall_mem_append]
        exact ⟨⟨hkey, by decide⟩, hvalue⟩
    · have hlen := length_renderEntries (entriesOf_offsets hp)
      have hentries := entriesOf_length p
      have hkey : (bytes "Encapsulated: ").length = 14 := rfl
      have hP : pieceLength = 1023 := rfl
      rw [List.mem_singleton.mp hl, hstr]
      refine ⟨⟨List.ne_nil_of_length_pos ?_, ?_⟩, ?_⟩
      · rw [List.length_append, hkey]
        omega
      · rw [List.length_append, hkey]
        omega
      · exact List.forall_mem_append.mpr ⟨by decide, isText_renderEntries _⟩
  · obtain ⟨d, hd⟩ := hr.holds
    exact ⟨d, holds_of_headers hd hheaders⟩

/-! ## A pass -/

theorem setEntries_with (m : List (Bytes × Bytes)) : ∀ (l : List (Entity × Int)) (h : Header),
    ({ h with headers := m } : Header).setEntries l = { h.setEntries l with headers := m }
  | [], _ => rfl
  | x :: l, h => setEntries_with m l (h.setEncapsulated x.1 x.2)

variable {p : Payload}

theorem attach_kept (r : Response) (hp : ReadablePayload p) :
    (r.setPayload p).header.attach (bytes "Connection") (bytes "keep-alive") = .ok ((kept r).setPayload p).header.toHeader := by
  obtain ⟨hreq, hres⟩ := hp.bodies
  have hsections := hp.sections
  simp only [icapBufferSize] at hreq hres
  have hlt : p.reqHeader.length + p.reqBody.length + p.resHeader.length + p.resBody.length < 2 ^ 31 := by omega
  have hkept : ((kept r).setPayload p).header.toHeader = { r.header.updateEncapsulated p with
      headers := KeyMap.set (bytes "Connection") (bytes "keep-alive") r.header.headers } := by
    show (kept r).header.toHeader.updateEncapsulated p = _
    rw [updateEncapsulated_eq _ hlt, updateEncapsulated_eq _ hlt]
    exact setEntries_with _ _ r.header.toHeader
  have hheaders : (r.setPayload p).header.headers = r.header.headers := Header.updateEncapsulated_headers _ _
  have hkey : trim (bytes "Connection") = bytes "Connection" ∧ trim (bytes "keep-alive") = bytes "keep-alive" := by decide
  rw [Header.attach_of_ne (by decide), hheaders, hkept, hkey.1, hkey.2]
  rfl

/-- The response says that the connection is kept if the request does, and is sent. -/
theorem answer_run (header : RequestHeader) {r : Response} (hp : ReadablePayload p) {s : Conn} (hg : s.good = true) (hf : s.faults = []) :
    (Worker.answer header (r.setPayload p)).run s = .ok ((answered header r).setPayload p, { s with
      sent := s.sent ++ responseWire (answered header r) p, flushed := s.sent ++ responseWire (answered header r) p }) := by
  by_cases hkeeps : header.keepsAlive = true
  · have hattach : (liftM ((r.setPayload p).header.attach (bytes "Connection") (bytes "keep-alive")) : SockM Header).run s =
        .ok (((kept r).setPayload p).header.toHeader, s) := by
      rw [attach_kept r hp]
      rfl
    rw [Worker.answer, if_pos hkeeps, run_bind_of_ok hattach, answered, if_pos hkeeps]
    exact run_bind_of_ok (sendResponse_wire (r := kept r) hp hg hf)
  · rw [Worker.answer, if_neg hkeeps, pure_bind, answered, if_neg hkeeps]
    exact run_bind_of_ok (sendResponse_wire (r := r) hp hg hf)

variable {r : WireRequest} {h : RequestHeader}

/-- `read_req_data` of a request that is read whole. -/
theorem readReqData_drained (hr : r.Echoable) (hp : r.Parsed h) :
    Consumes (readReqData (Request.new h)) r.message.wire ((Request.new h).setPayload r.message.payload, true) := by
  have hdrained : ∀ b ∈ r.message.body, b.1 ≠ .opt ∧ b.2.Small ∧ b.2.trailers = [] := by
    have := hr.drained
    rwa [WireRequest.Drained, if_pos hr.method] at this
  rcases hitems : r.encapsulated with _ | items
  · -- without a list there is no message
    have hempty : r.message = ⟨[], [], none⟩ := by
      have := r.described
      rwa [hitems] at this
    have hneg : ∀ x ∈ h.sortEncapsulated, x.2 < 0 := by
      intro x hx
      rw [← Header.mem_sortEncapsulated.mp hx, hp.listsNothing hitems]
      decide
    rw [hempty]
    show Consumes (readReqDataLoop h.sortEncapsulated Payload.empty >>= _) [] _
    rw [readReqDataLoop_negative hneg]
    exact (Consumes.pure _).map _
  · obtain ⟨taken, p, hwire, hread, hpayload⟩ := readReqData_message r.message (Request.new h) (hp.lists ⟨items, hitems⟩)
    have hleft : r.message.leftover = [] := by
      have := (ConnectionFramingAux.leftover_eq_nil_iff r).mpr hr.drained
      rwa [ConnectionFramingAux.leftover, if_pos hr.method] at this
    rw [hleft, List.append_nil] at hwire
    rw [hpayload fun b hb => (hdrained b hb).2.1] at hread
    rwa [hwire]

/-- `Echo` makes the response to a request from its message. -/
theorem respond_echo (echo : Echo) {name : Bytes} (hname : name ≠ []) (hr : r.Echoable) (hp : r.Parsed h) {s : Conn} {tail : Bytes}
    (hg : s.good = true) (hu : s.unread = r.message.wire ++ tail) : ∃ h', h'.keepsAlive = true ∧
      ((Worker.ofEcho echo name).respond h).run s =
        .ok ((h', echo.ok.setPayload { r.echoed with ieof := echo.ieof }), { s with unread := tail }) := by
  have hvalue : ∀ key, ((Request.new h).setPayload r.message.payload).header.value key = h.value key := by
    intro key
    show ((h.updateEncapsulated r.message.payload).headers.lookup key).getD [] = _
    rw [Header.updateEncapsulated_headers]
    rfl
  have hpreview : ((Request.new h).setPayload r.message.payload).previewSize < 0 := by
    unfold Request.previewSize
    rw [hvalue, hp.preview]
    decide
  have hmethod : ((Request.new h).setPayload r.message.payload).header.request.method = r.method := hp.method
  obtain ⟨o, hrun, ho⟩ := @EchoServiceAux.processRead_whole echo name _ hname hpreview { s with unread := tail }
  obtain ⟨o', s', hrun', -, hheader⟩ :=
    processRead_noPreview [{ name := name, modifier := echo.modifier }] hpreview { s with unread := tail }
  obtain ⟨rfl, -⟩ := Prod.mk.inj (Except.ok.inj (hrun.symm.trans hrun'))
  have hprocess : (process [{ name := name, modifier := echo.modifier }] h).run s = .ok (o, { s with unread := tail }) := by
    rw [process, run_bind_of_ok (readReqData_drained hr hp s tail hg hu)]
    exact hrun
  have hpayload : echo.payload ((Request.new h).setPayload r.message.payload) = { r.echoed with ieof := echo.ieof } := by
    rw [Echo.payload, hmethod]
    rfl
  have hfind : (Worker.ofEcho echo name).findReqHandler h.request.method =
      some (.modifiers [{ name := name, modifier := echo.modifier }]) := by
    rw [Worker.ofEcho, hp.method, Worker.findReqHandler_new]
    rcases hr.method with hm | hm
    · rw [if_neg (by rw [hm]; decide), if_pos hm]
    · rw [if_pos hm]
  refine ⟨o.reqHeader, ?_, ?_⟩
  · rw [RequestHeader.keepsAlive, hheader, hvalue, hp.connection]
    rfl
  · rw [Worker.respond, hfind, ← hpayload, ← Echo.modify, ← ho]
    exact run_bind_of_ok hprocess

theorem readable_ieof (hp : ReadablePayload p) (ieof : Bool) : ReadablePayload { p with ieof := ieof } :=
  ⟨hp.one, hp.order, hp.bodyTest, hp.bodies, hp.sections⟩

/-- The bytes of the response to a request. -/
def echoWire (echo : Echo) (r : WireRequest) : Bytes := responseWire (kept echo.ok) { r.echoed with ieof := echo.ieof }

/-- The bytes of the responses to requests, one behind the other. -/
def echoWires : (Nat → Echo) → List WireRequest → Bytes
  | _, [] => []
  | echoes, r :: requests => echoWire (echoes 0) r ++ echoWires (fun i => echoes (i + 1)) requests

/-- A pass over a request writes the response to it, and leaves the stream behind it. -/
theorem servePass_echo (echo : Echo) {name : Bytes} (hname : name ≠ []) (hr : r.Echoable) {s : Conn} {tail : Bytes}
    (hg : s.good = true) (hf : s.faults = []) (hu : s.unread = r.wire ++ tail) : ∃ pass, pass.goesOn = true ∧
      (Worker.ofEcho echo name).servePass.run s =
        .ok (pass, { s with unread := tail, sent := s.sent ++ echoWire echo r, flushed := s.sent ++ echoWire echo r }) := by
  obtain ⟨h, hread, hp⟩ := r.readReqHeader_wire hg hu
  have hout : timedout.run { s with unread := r.message.wire ++ tail } = .ok (false, { s with unread := r.message.wire ++ tail }) := by
    show Except.ok (s.stalls && !s.good && !s.broken, _) = _
    rw [hg]
    simp
  obtain ⟨h', hkeeps, hrespond⟩ := respond_echo echo hname hr hp (s := { s with unread := r.message.wire ++ tail }) hg rfl
  have hanswer := answer_run h' (r := echo.ok) (readable_ieof hr.readable echo.ieof) (s := { s with unread := tail }) hg hf
  rw [answered, if_pos hkeeps] at hanswer
  refine ⟨{ start := s.unread, reqHeader := h', response := some ((kept echo.ok).setPayload { r.echoed with ieof := echo.ieof }) }, ?_, ?_⟩
  · simp [Pass.goesOn, hkeeps]
  · rw [Worker.servePass, run_bind_of_ok (show (get : SockM Conn).run s = .ok (s, s) from rfl), run_bind_of_ok hread,
      run_bind_of_ok hout, if_neg Bool.false_ne_true, run_bind_of_ok hrespond]
    exact run_bind_of_ok hanswer

/-! ## The conversation -/

/-- The responses to requests that are written back to back are written back to back. -/
theorem serve_echo {name : Bytes} (hname : name ≠ []) (rest : Bytes) : ∀ (requests : List WireRequest) (echoes : Nat → Echo)
    (fuel : Nat) (maxRequests : UInt32) (s : Conn), (∀ r ∈ requests, r.Echoable) → 0 < maxRequests →
    requests.length ≤ maxRequests.toNat → maxRequests.toNat ≤ fuel → s.good = true → s.faults = [] →
    s.unread = requests.flatMap WireRequest.wire ++ rest →
    ∃ left events s', (Worker.servePasses (fun i => Worker.ofEcho (echoes i) name) fuel maxRequests).run s = .ok ((left, events), s') ∧
      s.sent ++ echoWires echoes requests <+: s'.sent
  | [], echoes, fuel, maxRequests, s, _, hpos, _, hfuel, _, _, _ => by
    obtain ⟨left, events, s', hrun⟩ := RequestBudgetAux.servePasses_returns fuel
      (fun i => ([⟨name, (echoes i).modifier⟩], [⟨name, (echoes i).modifier⟩])) maxRequests s hpos hfuel
    refine ⟨left, events, s', hrun, ?_⟩
    rw [echoWires, List.append_nil]
    exact DialogueAux.servePasses_grows fuel (fun i => Worker.ofEcho (echoes i) name) maxRequests _ _ _ hrun
  | r :: requests, _, 0, maxRequests, s, _, hpos, _, hfuel, _, _, _ => by
    have := RequestBudgetAux.toNat_pred hpos
    omega
  | r :: requests, echoes, fuel + 1, maxRequests, s, hall, hpos, hn, hfuel, hg, hf, hu => by
    have hpred := RequestBudgetAux.toNat_pred hpos
    rw [List.flatMap_cons, List.append_assoc] at hu
    rw [List.length_cons] at hn
    obtain ⟨pass, hgoes, hpass⟩ := servePass_echo (echoes 0) hname (hall r List.mem_cons_self) hg hf hu
    by_cases hlast : maxRequests - 1 = 0
    · -- the last request that is served
      have hzero : (maxRequests - 1).toNat = 0 := by
        rw [hlast]
        rfl
      obtain rfl : requests = [] := List.eq_nil_of_length_eq_zero (by omega)
      refine ⟨_, _, _, RequestBudgetAux.servePasses_last (fun i => Worker.ofEcho (echoes i) name) hpass (.inl hlast) fuel, ?_⟩
      rw [echoWires, echoWires, List.append_nil]
    · have hnext : 0 < maxRequests - 1 := UInt32.pos_iff_ne_zero.mpr hlast
      obtain ⟨left, events, s', hrest, hsent⟩ := serve_echo hname rest requests (fun i => echoes (i + 1)) fuel (maxRequests - 1)
        { s with
          unread := requests.flatMap WireRequest.wire ++ rest
          sent := s.sent ++ echoWire (echoes 0) r
          flushed := s.sent ++ echoWire (echoes 0) r }
        (fun r' hr' => hall r' (List.mem_cons_of_mem _ hr')) hnext (by omega) (by omega) hg hf rfl
      refine ⟨left, _, s', RequestBudgetAux.servePasses_next (fun i => Worker.ofEcho (echoes i) name) hpass hnext hgoes hrest, ?_⟩
      rw [echoWires, ← List.append_assoc]
      exact hsent

/-- A client reads of the responses the payloads. -/
theorem readResponses_echo (more : Bytes) : ∀ (requests : List WireRequest) (echoes : Nat → Echo),
    (∀ i, (echoes i).ok.header.Dated) → ∀ t : Conn, (∀ r ∈ requests, r.Echoable) → t.good = true →
    t.unread = echoWires echoes requests ++ more →
    (readResponses requests.length).run t = .ok (requests.map WireRequest.echoed, { t with unread := more })
  | [], _, _, t, _, _, hu => by
    rw [echoWires, List.nil_append] at hu
    rw [← hu]
    rfl
  | r :: requests, echoes, hdates, t, hall, hg, hu => by
    rw [echoWires, List.append_assoc] at hu
    obtain ⟨s, s', hmade⟩ := (echoes 0).ok_made
    have hkept : EchoHead (kept (echoes 0).ok).header := (echoHead_made hmade (hdates 0)).kept
    have hp := readable_ieof (hall r List.mem_cons_self).readable (echoes 0).ieof
    obtain ⟨h, t', request, hread, -, hdata, hpayload⟩ :=
      read_responseWire (r := kept (echoes 0).ok) hkept.fresh hp (readableHead_echo hkept hp) hg hu
    have hlater := readResponses_echo more requests (fun i => echoes (i + 1)) (fun i => hdates (i + 1))
      { t with unread := echoWires (fun i => echoes (i + 1)) requests ++ more }
      (fun r' hr' => hall r' (List.mem_cons_of_mem _ hr')) hg rfl
    rw [List.length_cons, readResponses, run_bind_of_ok hread, run_bind_of_ok hdata]
    simp only [if_true]
    rw [run_bind_of_ok hlater, hpayload]
    rfl

end EchoConversationAux

open EchoConversationAux

/-- A client sends requests back to back to a worker whose only modifier is `Echo`, which makes the responses of each pass anew, and reads
from what the worker sends: it reads what `Echo` sends back of each request, in the order of the requests. -/
theorem echo_conversation {echoes : Nat → Echo} (hdates : ∀ i, (echoes i).ok.header.Dated) {name : Bytes} (hname : name ≠ [])
    {requests : List WireRequest} (hechoable : ∀ r ∈ requests, r.Echoable) {maxRequests : UInt32} (hpos : 0 < maxRequests)
    (hn : requests.length ≤ maxRequests.toNat) {s : Conn} (hg : s.good = true) (hf : s.faults = []) {rest : Bytes}
    (hu : s.unread = requests.flatMap WireRequest.wire ++ rest) :
    ∃ left events s', (Worker.servePasses (fun i => Worker.ofEcho (echoes i) name) UInt32.size maxRequests).run s =
        .ok ((left, events), s') ∧
      ∀ t : Conn, t.good = true → s'.sent <+: s.sent ++ t.unread → ∃ t',
        (readResponses requests.length).run t = .ok (requests.map WireRequest.echoed, t') := by
  obtain ⟨left, events, s', hrun, hsent⟩ := serve_echo hname rest requests echoes UInt32.size maxRequests s hechoable hpos hn
    (Nat.le_of_lt maxRequests.toNat_lt_size) hg hf hu
  refine ⟨left, events, s', hrun, fun t hgt hunread => ?_⟩
  obtain ⟨more, hmore⟩ := hsent.trans hunread
  rw [List.append_assoc] at hmore
  exact ⟨_, readResponses_echo more requests echoes hdates t hechoable hgt (List.append_cancel_left hmore).symm⟩

namespace EchoConversationAux

/-- The head of a request with a header section of three bytes and a body behind it. -/
def sampleHead (method : Bytes) (header body : Entity) : RequestHead :=
  ConnectionFramingAux.sampleHead method (some [ConnectionFramingAux.itemAtZero header,
    { ConnectionFramingAux.itemAtZero body with digits := bytes "3", digits_ne := by decide, digits_dec := by decide }])

/-- A `REQMOD` request. -/
def reqmodRequest : WireRequest where
  toRequestHead := sampleHead (bytes "REQMOD") .reqHdr .reqBody
  message := ⟨bytes "GET", [], some (.req, ChunkedBody.ofData (bytes "x"))⟩
  tokens := by decide
  short := by decide
  keeps := ⟨_, List.mem_cons_self, rfl⟩
  described := List.Perm.refl _
  offsets := by decide

/-- A `RESPMOD` request. -/
def respmodRequest : WireRequest where
  toRequestHead := sampleHead (bytes "RESPMOD") .resHdr .resBody
  message := ⟨[], bytes "200", some (.res, ChunkedBody.ofData (bytes "y"))⟩
  tokens := by decide
  short := by decide
  keeps := ⟨_, List.mem_cons_self, rfl⟩
  described := List.Perm.refl _
  offsets := by decide

theorem samples_echoable : ∀ r ∈ [reqmodRequest, respmodRequest], r.Echoable := by
  intro r hr
  rcases List.mem_pair.mp hr with rfl | rfl
  · refine ⟨.inl rfl, ?_, ⟨.inr rfl, fun _ => rfl, by decide, by decide, by decide⟩⟩
    unfold WireRequest.Drained
    rw [if_pos (.inl rfl)]
    rintro b ⟨⟩
    decide
  · refine ⟨.inr rfl, ?_, ⟨.inl rfl, by decide, by decide, by decide, by decide⟩⟩
    unfold WireRequest.Drained
    rw [if_pos (.inr rfl)]
    rintro b ⟨⟩
    decide

/-- At every time there is a response of `Echo` whose date is a text. -/
theorem exists_dated (rawTime : Int) : ∃ echo : Echo, echo.ok.header.Dated := by
  obtain ⟨cont, s, hcont, -⟩ := Response.ofStatus_returns .continue (Conn.ofInput [])
  have hok := ofStatus_eq (by decide : Status.ok ≠ .continue)
    { Conn.ofInput [] with stamps := fun _ => { date := [], rawTime := rawTime, clockTime := 0 } }
  refine ⟨⟨_, cont, false, ⟨_, _, hok⟩, ⟨_, _, hcont⟩⟩, fun f hf hkey => ?_⟩
  rcases KeyMap.mem_set hf with rfl | hf
  · exact absurd hkey (by decide)
  rcases KeyMap.mem_set hf with rfl | hf
  · exact absurd hkey (by decide)
  rcases KeyMap.mem_set hf with rfl | hf
  · exact absurd hkey (by decide : bytes "ISTag" ≠ bytes "Date")
  rcases KeyMap.mem_set hf with rfl | hf
  · show (trim []).length < 80 ∧ ∀ c ∈ trim [], isText c = true
    decide
  · cases hf

end EchoConversationAux

/-- A request with a request body and one with a response body, over one connection. -/
theorem echo_conversation_samples : ∃ (echoes : Nat → Echo) (left : UInt32) (events : List Worker.LoopEvent) (s' : Conn),
    (Worker.servePasses (fun i => Worker.ofEcho (echoes i) (bytes "echo")) UInt32.size 2).run
      (Conn.ofInput ([reqmodRequest, respmodRequest].flatMap WireRequest.wire ++ [])) = .ok ((left, events), s') ∧
    ∀ t : Conn, t.good = true → s'.sent <+: [] ++ t.unread → ∃ t', (readResponses 2).run t =
      .ok ([{ Payload.empty with reqHeader := bytes "GET", reqBody := bytes "x" },
        { Payload.empty with resHeader := bytes "200", resBody := bytes "y" }], t') := by
  choose echoes hdates using fun i : Nat => exists_dated i
  exact ⟨echoes, echo_conversation hdates (by decide) samples_echoable (by decide) (by decide) rfl rfl rfl⟩

end BitzServer
