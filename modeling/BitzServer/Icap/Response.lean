import BitzServer.Icap.Chunked
import BitzServer.Icap.Header

/-!
# Responses

`icap::ResponseHeader` and `icap::Response`, and `send_response`, which writes the status line, the headers and then the sections
of the payload.
-/

namespace BitzServer

open Feed

/-- `status_t`: the codes below, and any other number cast to it. -/
structure Status where
  code : Nat
  deriving DecidableEq

namespace Status

def «continue» : Status := ⟨100⟩
def ok : Status := ⟨200⟩
def noContent : Status := ⟨204⟩
def badRequest : Status := ⟨400⟩
def notFound : Status := ⟨404⟩
def notAllowed : Status := ⟨405⟩
def reqTimeout : Status := ⟨408⟩
def serverError : Status := ⟨500⟩
def notImplemented : Status := ⟨501⟩
def badGateway : Status := ⟨502⟩
def serviceOverloaded : Status := ⟨503⟩
def notSupported : Status := ⟨505⟩

end Status

/-- `response_status`: the empty string for a code that is not in the map -/
def responseStatus (status : Status) : Bytes :=
  let statusText : List (Status × String) :=
    [(.continue, "Continue"), (.ok, "OK"), (.noContent, "No modifications needed"), (.badRequest, "Bad request"),
      (.notFound, "ICAP Service not found"), (.notAllowed, "Method not allowed for service"), (.reqTimeout, "Request timeout"),
      (.serverError, "Server error"), (.notImplemented, "Method not implemented"), (.badGateway, "Bad gateway"),
      (.serviceOverloaded, "Service overloaded"), (.notSupported, "ICAP version not supported by server")]
  bytes ((statusText.lookup status).getD "")

/-- `PACKAGE_STRING` -/
def packageString : Bytes := bytes "bitz-server 2.0.3"

/-- `icap::ResponseHeader` -/
structure ResponseHeader extends Header where
  protocol : Bytes
  status : Status

namespace ResponseHeader

/-- `generate_istag` without the attaching -/
def istag (stamp : Stamp) : Bytes := (bytes "BITZ-" ++ itoa stamp.rawTime ++ bytes "-" ++ itoa stamp.clockTime).take 32

/-- `ResponseHeader::ResponseHeader` with `init_defaults` -/
def new (status : Status) : SockM ResponseHeader := do
  let stamp ← now
  let h ← Header.new.attach (bytes "Date") stamp.date
  let h ← h.attach (bytes "ISTag") (istag stamp)
  let h ← h.attach (bytes "Server") packageString
  let h ← (if status ≠ .continue then liftM (h.attach (bytes "Connection") (bytes "close")) else pure h : SockM Header)
  return { h with protocol := bytes "ICAP/1.0", status := status }

end ResponseHeader

/-- `icap::Response` -/
structure Response where
  header : ResponseHeader
  payload : Payload

namespace Response

/-- `Response::Response` of a header, which may be missing -/
def new (header : Option ResponseHeader) : SockM Response := do
  match header with
  | some header => return { header, payload := Payload.empty }
  | none => return { header := ← ResponseHeader.new .serverError, payload := Payload.empty }

/-- `Response::Response` of a status -/
def ofStatus (status : Status) : SockM Response := do
  return { header := ← ResponseHeader.new status, payload := Payload.empty }

/-- `Response::payload` with an argument: the header is updated as well. -/
def setPayload (response : Response) (payload : Payload) : Response :=
  { header := { response.header with toHeader := response.header.updateEncapsulated payload }, payload := payload }

end Response

/-! ## Sending -/

/-- The loop of `send_headers` over the plain headers. -/
def sendHeaderLines : List (Bytes × Bytes) → SockM Bool
  | [] => return true
  | (key, value) :: headers => do
    let sent ← sendLine (key ++ bytes ": " ++ value)
    if sent then sendHeaderLines headers else return false

/-- `send_headers`, false if a send fails -/
def sendHeaders (header : Header) : SockM Bool := do
  let sent ← sendHeaderLines header.headers
  if sent then
    let sent ← sendLine (bytes "Encapsulated: " ++ header.encapsulatedStr)
    if sent then sendData crlf else return false
  else return false

/-- The status line of `send_response`. -/
def statusLine (header : ResponseHeader) : Bytes :=
  header.protocol ++ bytes " " ++ itoa header.status.code ++ bytes " " ++ responseStatus header.status

/-- The sections of the payload that are there: what becomes of them does not change the result of `send_response`. -/
def sendContent (payload : Payload) : SockM Unit := do
  let _ ← (if payload.reqHeader.length > 0 then sendData payload.reqHeader else pure true : SockM Bool)
  let _ ← (if payload.reqBody.length > 0 then sendChunked payload.reqBody else pure true : SockM Bool)
  let _ ← (if payload.resHeader.length > 0 then sendData payload.resHeader else pure true : SockM Bool)
  let _ ← (if payload.resBody.length > 0 then sendChunked payload.resBody else pure true : SockM Bool)
  return ()

/-- `send_response` -/
def sendResponse (response : Response) : SockM Bool := do
  let header := response.header
  let rSuccess ← sendLine (statusLine header)
  let rSuccess ← (if rSuccess then sendHeaders header.toHeader else pure rSuccess : SockM Bool)
  (if rSuccess then sendContent response.payload else pure () : SockM Unit)
  flush
  return rSuccess

/-! ## What a new response is -/

namespace ResponseAux

/-- Attaching a plain header keeps what is listed. -/
theorem attach_returns {key : Bytes} (hkey : trim key ≠ bytes "Encapsulated") (h : Header) (value : Bytes) :
    Returns Conn.KeepsInput (fun h' => h'.encapsulated = h.encapsulated) (liftM (h.attach key value) : SockM Header) :=
  Returns.lift (Header.attach_of_ne hkey h value) rfl

end ResponseAux

open ResponseAux

/-- A new response header has the status it is given and lists nothing. -/
theorem ResponseHeader.new_returns (status : Status) : Returns Conn.KeepsInput
    (fun h => h.status = status ∧ h.encapsulated = Header.new.encapsulated) (ResponseHeader.new status) := by
  unfold ResponseHeader.new
  refine Returns.bind now_within fun stamp _ => ?_
  refine Returns.bind (attach_returns (by decide) _ _) fun h1 hh1 => ?_
  refine Returns.bind (attach_returns (by decide) _ _) fun h2 hh2 => ?_
  refine Returns.bind (attach_returns (by decide) _ _) fun h3 hh3 => ?_
  refine Returns.bind (R := Conn.KeepsInput) (Q := fun h => h.encapsulated = h3.encapsulated) ?_ fun h4 hh4 => ?_
  · split
    · exact attach_returns (by decide) _ _
    · exact Returns.pure rfl
  · exact Returns.pure ⟨rfl, hh4.trans (hh3.trans (hh2.trans hh1))⟩

/-- A new response of a status lists nothing and has no payload. -/
theorem Response.ofStatus_returns (status : Status) : Returns Conn.KeepsInput
    (fun r => r.header.status = status ∧ r.header.encapsulated = Header.new.encapsulated ∧ r.payload = Payload.empty)
    (Response.ofStatus status) :=
  Returns.bind (ResponseHeader.new_returns status) fun _ hh => Returns.pure ⟨hh.1, hh.2, rfl⟩

/-- What a new response of a status is, wherever it has been made. -/
theorem Response.ofStatus_made {status : Status} {response : Response} {s s' : Conn}
    (h : (Response.ofStatus status).run s = .ok (response, s')) :
    response.header.status = status ∧ response.payload = Payload.empty := by
  obtain ⟨r, s1, hrun, -, hstatus, -, hpayload⟩ := Response.ofStatus_returns status s
  obtain ⟨rfl, -⟩ := Prod.mk.inj (Except.ok.inj (hrun.symm.trans h))
  exact ⟨hstatus, hpayload⟩

/-- Making a response writes nothing. -/
theorem Response.ofStatus_writesNothing (status : Status) : Keeps Conn.WritesNothing (Response.ofStatus status) := by
  refine Keeps.bind ?_ fun header => Keeps.pure _
  refine Keeps.bind now_writesNothing fun stamp => Keeps.bind (Keeps.lift _) fun h1 => Keeps.bind (Keeps.lift _) fun h2 => ?_
  refine Keeps.bind (Keeps.lift _) fun h3 => Keeps.bind (R := Conn.WritesNothing) ?_ fun _ => Keeps.pure _
  split
  · exact Keeps.lift _
  · exact Keeps.pure _

/-! ## What is sent -/

theorem sendHeaderLines_within : ∀ headers : List (Bytes × Bytes), Within Conn.KeepsInput (sendHeaderLines headers)
  | [] => Within.pure _
  | (key, value) :: headers => by
    refine Within.bind (sendLine_within _) fun sent => ?_
    split
    · exact sendHeaderLines_within headers
    · exact Within.pure _

theorem sendHeaders_within (header : Header) : Within Conn.KeepsInput (sendHeaders header) := by
  refine Within.bind (sendHeaderLines_within _) fun sent => ?_
  split
  · refine Within.bind (sendLine_within _) fun sent => ?_
    split
    · exact write_within _
    · exact Within.pure _
  · exact Within.pure _

theorem sendContent_within (payload : Payload) : Within Conn.KeepsInput (sendContent payload) := by
  have hif : ∀ (c : Prop) [Decidable c] (p : SockM Bool), Within Conn.KeepsInput p →
      Within Conn.KeepsInput (if c then p else pure true : SockM Bool) := by
    intro c _ p hp
    split
    · exact hp
    · exact Within.pure _
  refine Within.bind (hif _ _ (write_within _)) fun _ => Within.bind (hif _ _ (sendChunked_within _)) fun _ => ?_
  exact Within.bind (hif _ _ (write_within _)) fun _ => Within.bind (hif _ _ (sendChunked_within _)) fun _ => Within.pure _

/-- `send_response` returns and reads nothing, whichever write fails. -/
theorem sendResponse_within (response : Response) : Within Conn.KeepsInput (sendResponse response) := by
  refine Within.bind (sendLine_within _) fun r1 => ?_
  refine Within.bind (R := Conn.KeepsInput) ?_ fun r2 => ?_
  · split
    · exact sendHeaders_within _
    · exact Within.pure _
  · refine Within.bind (R := Conn.KeepsInput) ?_ fun _ => Within.bind flush_within fun _ => Within.pure _
    split
    · exact sendContent_within _
    · exact Within.pure _

/-- The encapsulated bytes `send_response` writes, section by section. -/
def contentWrites (payload : Payload) : List (Entity × Bytes) :=
  (if payload.reqHeader ≠ [] then [(.reqHdr, payload.reqHeader)] else []) ++
    ((if payload.reqBody ≠ [] then [(.reqBody, chunkedWire payload.reqBody)] else []) ++
      ((if payload.resHeader ≠ [] then [(.resHdr, payload.resHeader)] else []) ++
        (if payload.resBody ≠ [] then [(.resBody, chunkedWire payload.resBody)] else [])))

/-- The bytes `send_response` writes before them. -/
def headBytes (header : ResponseHeader) : Bytes :=
  statusLine header ++ crlf ++ header.headers.flatMap (fun h => h.1 ++ bytes ": " ++ h.2 ++ crlf) ++
    (bytes "Encapsulated: " ++ header.encapsulatedStr ++ crlf) ++ crlf

namespace ResponseAux

theorem sendHeaderLines_run : ∀ (headers : List (Bytes × Bytes)) {s : Conn}, s.good = true → s.faults = [] →
    (sendHeaderLines headers).run s =
      .ok (true, { s with sent := s.sent ++ headers.flatMap (fun h => h.1 ++ bytes ": " ++ h.2 ++ crlf) })
  | [], s, _, _ => by
    rw [List.flatMap_nil, List.append_nil]
    rfl
  | (key, value) :: headers, s, hg, hf => by
    rw [sendHeaderLines, run_bind_of_ok (sendLine_run hg hf _), if_pos rfl,
      sendHeaderLines_run headers (by exact hg) (by exact hf), List.flatMap_cons]
    simp only [List.append_assoc]

/-- A section that is there is sent, one that is empty is not. -/
theorem section_run {content : Bytes} {send : Bytes → SockM Bool} {w : Bytes} {e : Entity} {s : Conn}
    (hsend : content ≠ [] → (send content).run s = .ok (true, { s with sent := s.sent ++ w })) :
    (if content.length > 0 then send content else pure true : SockM Bool).run s =
      .ok (true, { s with sent := s.sent ++ (if content ≠ [] then [(e, w)] else []).flatMap Prod.snd }) := by
  by_cases h : content = []
  · subst h
    simp only [List.length_nil, gt_iff_lt, lt_irrefl, if_false, ne_eq, not_true_eq_false, List.flatMap_nil, List.append_nil]
    rfl
  · rw [if_pos (List.length_pos_iff.mpr h), hsend h, if_pos h]
    simp

end ResponseAux

/-- On a good stream whose writes do not fail the sections are sent one after the other. -/
theorem sendContent_run (payload : Payload) (h1 : payload.reqBody.length < 2 ^ 31) (h2 : payload.resBody.length < 2 ^ 31) {s : Conn}
    (hg : s.good = true) (hf : s.faults = []) :
    (sendContent payload).run s = .ok ((), { s with sent := s.sent ++ (contentWrites payload).flatMap Prod.snd }) := by
  rw [sendContent, run_bind_of_ok (section_run (e := .reqHdr) fun _ => sendData_run hg hf _),
    run_bind_of_ok (section_run (e := .reqBody) fun hne => sendChunked_run hne h1 (by exact hg) (by exact hf)),
    run_bind_of_ok (section_run (e := .resHdr) fun _ => sendData_run (by exact hg) (by exact hf) _),
    run_bind_of_ok (section_run (e := .resBody) fun hne => sendChunked_run hne h2 (by exact hg) (by exact hf))]
  simp only [contentWrites, List.flatMap_append, List.append_assoc]
  rfl

/-- On a good stream whose writes do not fail `send_response` writes the status line, the headers and the sections, and passes on all
that has been written. -/
theorem sendResponse_run (response : Response) (h1 : response.payload.reqBody.length < 2 ^ 31)
    (h2 : response.payload.resBody.length < 2 ^ 31) {s : Conn} (hg : s.good = true) (hf : s.faults = []) :
    (sendResponse response).run s = .ok (true, { s with
      sent := s.sent ++ (headBytes response.header ++ (contentWrites response.payload).flatMap Prod.snd)
      flushed := s.sent ++ (headBytes response.header ++ (contentWrites response.payload).flatMap Prod.snd) }) := by
  have hhead : (sendHeaders response.header.toHeader).run { s with sent := s.sent ++ (statusLine response.header ++ crlf) } =
      .ok (true, { s with sent := s.sent ++ headBytes response.header }) := by
    rw [sendHeaders, run_bind_of_ok (sendHeaderLines_run _ (by exact hg) (by exact hf)), if_pos rfl,
      run_bind_of_ok (sendLine_run (by exact hg) (by exact hf) _), if_pos rfl, sendData, write_run (by exact hg) (by exact hf)]
    simp only [headBytes, List.append_assoc]
  rw [sendResponse, run_bind_of_ok (sendLine_run hg hf _), if_pos rfl, run_bind_of_ok hhead, if_pos rfl,
    run_bind_of_ok (sendContent_run _ h1 h2 (by exact hg) (by exact hf)), run_bind_of_ok (flush_run (by exact hg))]
  simp only [List.append_assoc]
  rfl

end BitzServer
