import BitzServer.Server.Echo
import BitzServer.Theorems.RequestData

/-!
# The echo service and the framing of the body

`process` with `Echo` as the only modifier, for a body that is sent whole, in part as a preview, or in full as a preview that ends with
`ieof`.
-/

namespace BitzServer

open Feed RequestDataAux

/-- How a client sends a body. -/
inductive Framing where
  /-- without a preview -/
  | whole (B : ChunkedBody)
  /-- a preview, and the rest after the `100 Continue` -/
  | preview (P Q : ChunkedBody)
  /-- a preview with the whole body, which ends with `ieof` -/
  | complete (P : ChunkedBody)

namespace Framing

/-- The chunks up to the first zero chunk. -/
def first : Framing → ChunkedBody
  | whole P | preview P _ | complete P => P

/-- What is sent after the `100 Continue`. -/
def remainder : Framing → Bytes
  | preview _ Q => Q.wire
  | whole _ | complete _ => []

/-- The bytes that carry the body. -/
def wire (framing : Framing) : Bytes := framing.first.wire ++ framing.remainder

/-- The framing carries the body `b` of a request with the header, in chunks whose sizes fit an `int` and without trailers. -/
def Carries (header : RequestHeader) (b : Bytes) (framing : Framing) : Prop :=
  (framing.first.Small ∧ framing.first.trailers = []) ∧ match framing with
    | whole B => (Request.new header).previewSize < 0 ∧ B.content = b
    | preview P Q => (Request.new header).previewSize ≥ 0 ∧ P.content ++ Q.content = b ∧ Q.content ≠ [] ∧ P.last.ieof = false ∧
        Q.Small ∧ Q.trailers = []
    | complete P => (Request.new header).previewSize ≥ 0 ∧ P.content = b ∧ P.last.ieof = true

end Framing

/-- The method that goes with a kind of body. -/
def BodyKind.method : BodyKind → Bytes
  | req => bytes "REQMOD"
  | res => bytes "RESPMOD"
  | opt => bytes "OPTIONS"

/-- The header of a `REQMOD` or `RESPMOD` request with the two header sections, one of them at least, and a body; the offsets are
`int`s. -/
structure AnnouncesBody (header : RequestHeader) (kind : BodyKind) (reqHeader resHeader : Bytes) : Prop where
  kind_ne : kind ≠ .opt
  method : header.request.method = kind.method
  grammar : kind = .req → resHeader = []
  nonempty : reqHeader ≠ [] ∨ resHeader ≠ []
  length : reqHeader.length + resHeader.length < 2 ^ 31
  lists : ∀ P, header.Lists (Message.entries ⟨reqHeader, resHeader, some (kind, P)⟩)

/-- The payload is that of the request with the body `b`, as `Echo::modify` copies it. -/
def Echoed (kind : BodyKind) (reqHeader resHeader b : Bytes) (payload : Payload) : Prop :=
  payload.reqHeader = (if kind = .req then reqHeader else []) ∧ payload.reqBody = (if kind = .req then b else []) ∧
    payload.resHeader = resHeader ∧ payload.resBody = (if kind = .res then b else [])

/-- With `Echo` as the only modifier, `process` answers `200 OK` with the payload of the request, on every good stream whose writes do
not fail. -/
def EchoesBody (echo : Echo) (name : Bytes) (header : RequestHeader) (kind : BodyKind) (reqHeader resHeader b : Bytes)
    (framing : Framing) : Prop :=
  ∀ (s : Conn) (rest : Bytes), s.good = true → s.faults = [] → s.unread = reqHeader ++ resHeader ++ framing.wire ++ rest →
    ∃ o s', (process [{ name := name, modifier := echo.modifier }] header).run s = .ok (o, s') ∧
      o.response.header.status = .ok ∧ Echoed kind reqHeader resHeader b o.response.payload

namespace EchoServiceAux

variable {echo : Echo} {name : Bytes} {request : Request}

/-! ### The one modifier -/

/-- `Echo::modify` answers `200 OK`, which ends `process_modify`. -/
theorem processModify_echo (hname : name ≠ []) :
    (processModify request [{ name := name, modifier := echo.modifier }] none).1 = some (echo.modify request) := by
  have hstatus : (echo.modifier.modify request).header.status = .ok := echo.ok_status
  rw [processModify, if_neg hname]
  simp only [if_pos hstatus]
  rfl

/-- Without a preview the response is that of `Echo::modify`. -/
theorem processRead_whole (hname : name ≠ []) (hpreview : request.previewSize < 0) (s : Conn) : ∃ o,
    (processRead [{ name := name, modifier := echo.modifier }] request).run s = .ok (o, s) ∧ o.response = echo.modify request := by
  rw [processRead, if_neg (by omega), pure_bind]
  simp only [processModify_echo hname]
  exact ⟨_, rfl, rfl⟩

/-- `Echo::preview` asks for the rest, in `process_preview`. -/
theorem processPreview_echo (hname : name ≠ []) {request' : Request} {result : Bool} {s s' : Conn}
    (hrun : (previewContinue echo.continue request).run s = .ok ((request', result), s')) :
    (result = true → ∃ calls, (processPreview request [{ name := name, modifier := echo.modifier }] none).run s =
      .ok ((request', none, calls), s')) ∧
    (result = false → ∃ answer calls s₂, (processPreview request [{ name := name, modifier := echo.modifier }] none).run s =
      .ok ((request', some answer, calls), s₂) ∧ answer.header.status = .serverError) := by
  have hstatus : (echo.modifier.preview request).header.status = .continue := echo.continue_status
  have hne : ¬((echo.modifier.preview request).header.status = .noContent ∨ (echo.modifier.preview request).header.status = .ok) := by
    rw [hstatus]
    decide
  rw [processPreview, if_neg hname]
  simp only [if_neg hne, if_pos hstatus]
  rw [show echo.modifier.preview request = echo.continue from rfl, run_bind_of_ok hrun]
  constructor
  · rintro rfl
    exact ⟨_, rfl⟩
  · rintro rfl
    obtain ⟨answer, s₂, hanswer, -, hserver, -⟩ := Response.ofStatus_returns .serverError s'
    refine ⟨answer, [{ name := name, operation := .preview, request := request }], s₂, ?_, hserver⟩
    simp only [Bool.false_eq_true, if_false]
    rw [run_bind_of_ok hanswer]
    rfl

/-- Once the rest has been read, the response is that of `Echo::modify`. -/
theorem processRead_continued (hname : name ≠ []) (hpreview : request.previewSize ≥ 0) {request' : Request} {s s' : Conn}
    (hrun : (previewContinue echo.continue request).run s = .ok ((request', true), s')) : ∃ o,
    (processRead [{ name := name, modifier := echo.modifier }] request).run s = .ok (o, s') ∧ o.response = echo.modify request' := by
  obtain ⟨calls, hloop⟩ := (processPreview_echo hname hrun).1 rfl
  rw [processRead, if_pos hpreview, run_bind_of_ok hloop]
  simp only [processModify_echo hname]
  exact ⟨_, rfl, rfl⟩

/-- Where `preview_continue` fails, the response is a server error. -/
theorem processRead_refused (hname : name ≠ []) (hpreview : request.previewSize ≥ 0) {request' : Request} {s s' : Conn}
    (hrun : (previewContinue echo.continue request).run s = .ok ((request', false), s')) : ∃ o s₂,
    (processRead [{ name := name, modifier := echo.modifier }] request).run s = .ok (o, s₂) ∧
      o.response.header.status = .serverError := by
  obtain ⟨answer, calls, s₂, hloop, hserver⟩ := (processPreview_echo hname hrun).2 rfl
  rw [processRead, if_pos hpreview, run_bind_of_ok hloop]
  exact ⟨_, _, rfl, hserver⟩

/-- The preview size is that of the plain headers: setting a payload keeps it. -/
theorem previewSize_setPayload (request : Request) (payload : Payload) :
    (request.setPayload payload).previewSize = request.previewSize := by
  unfold Request.previewSize Request.setPayload Header.value
  simp only [Header.updateEncapsulated_headers]

/-- On a good stream whose writes do not fail the `100 Continue` is sent and the rest is read. -/
theorem previewContinue_run (hieof : request.payload.ieof = false) {request' : Request} {w : Bytes}
    (hread : Consumes (readReqContinueData request) w (request', true)) {s : Conn} (hg : s.good = true) (hf : s.faults = []) {rest : Bytes}
    (hs : s.unread = w ++ rest) : ∃ s', (previewContinue echo.continue request).run s = .ok ((request', true), s') := by
  have hbody : echo.continue.payload.reqBody.length < 2 ^ 31 ∧ echo.continue.payload.resBody.length < 2 ^ 31 := by
    rw [echo.continue_payload]
    decide
  have hsend := sendResponse_run echo.continue hbody.1 hbody.2 hg hf
  rw [previewContinue, if_neg (by simp [hieof]), run_bind_of_ok hsend]
  exact ⟨_, hread _ rest (by exact hg) (by exact hs)⟩

/-! ### The payload -/

/-- What `Echo::modify` makes of a request whose payload is the message. -/
theorem echoed_modify {header : RequestHeader} {kind : BodyKind} {reqHeader resHeader b : Bytes}
    (h : AnnouncesBody header kind reqHeader resHeader) (hmethod : request.header.request.method = header.request.method)
    (hreq : request.payload.reqHeader = reqHeader) (hres : request.payload.resHeader = resHeader)
    (hbody : kind.field request.payload = b) (hother : ∀ k, k ≠ kind → k.field request.payload = []) :
    Echoed kind reqHeader resHeader b (echo.modify request).payload := by
  have hreqmod : request.header.request.method = bytes "REQMOD" ↔ kind = .req := by
    rw [hmethod, h.method]
    cases kind <;> decide
  unfold Echoed Echo.modify Response.setPayload Echo.payload
  simp only [hreqmod]
  cases kind with
  | opt => exact absurd rfl h.kind_ne
  | req => exact ⟨hreq, hbody, hres, hother .res nofun⟩
  | res => exact ⟨rfl, rfl, hres, hbody⟩

/-- The payload of a message has the body in its field and nothing in the others. -/
theorem message_payload {kind : BodyKind} (hkind : kind ≠ .opt) (reqHeader resHeader : Bytes) (P : ChunkedBody) :
    let p := Message.payload ⟨reqHeader, resHeader, some (kind, P)⟩
    p.reqHeader = reqHeader ∧ p.resHeader = resHeader ∧ kind.field p = P.content ∧ (∀ k, k ≠ kind → k.field p = []) ∧
      p.ieof = P.last.ieof := by
  cases kind with
  | opt => exact absurd rfl hkind
  | req =>
    refine ⟨rfl, rfl, rfl, fun k hk => ?_, rfl⟩
    cases k with
    | req => exact absurd rfl hk
    | res | opt => rfl
  | res =>
    refine ⟨rfl, rfl, rfl, fun k hk => ?_, rfl⟩
    cases k with
    | res => exact absurd rfl hk
    | req | opt => rfl

/-- `process` reads the first part and goes on with it. -/
theorem process_first {header : RequestHeader} {kind : BodyKind} {reqHeader resHeader b : Bytes} {framing : Framing}
    (h : AnnouncesBody header kind reqHeader resHeader) (hframing : framing.Carries header b) (handlers : List Handler) {s : Conn}
    {rest : Bytes} (hg : s.good = true) (hs : s.unread = reqHeader ++ resHeader ++ framing.wire ++ rest) :
    (process handlers header).run s =
      (processRead handlers ((Request.new header).setPayload (Message.payload ⟨reqHeader, resHeader, some (kind, framing.first)⟩))).run
        { s with unread := framing.remainder ++ rest } := by
  have hread := readReqData_whole h.kind_ne (h.lists framing.first) hframing.1.1 hframing.1.2 s (framing.remainder ++ rest) hg (by
    rw [show Feed.Source.unread s = s.unread from rfl, hs, Framing.wire]
    simp only [Message.wire, Message.headers, List.append_assoc])
  rw [process, run_bind_of_ok hread]
  rfl

/-- A framing with `ieof` in the preview is answered by a server error. -/
theorem not_echoesBody {header : RequestHeader} {kind : BodyKind} {reqHeader resHeader b : Bytes} {P : ChunkedBody}
    (hname : name ≠ []) (h : AnnouncesBody header kind reqHeader resHeader) (hframing : (Framing.complete P).Carries header b) :
    ¬EchoesBody echo name header kind reqHeader resHeader b (.complete P) := by
  intro hechoes
  obtain ⟨s, hs⟩ : ∃ s, s = Conn.ofInput (reqHeader ++ resHeader ++ (Framing.complete P).wire ++ []) := ⟨_, rfl⟩
  obtain ⟨o, s', hrun, hok, -⟩ := hechoes s [] (by rw [hs]; rfl) (by rw [hs]; rfl) (by rw [hs]; rfl)
  rw [process_first h hframing _ (by rw [hs]; rfl) (by rw [hs]; rfl)] at hrun
  obtain ⟨-, -, -, -, hieof⟩ := message_payload h.kind_ne reqHeader resHeader P
  obtain ⟨hpreview, -, hlast⟩ := hframing.2
  have hcontinue : (previewContinue echo.continue
      ((Request.new header).setPayload (Message.payload ⟨reqHeader, resHeader, some (kind, P)⟩))).run { s with unread := [] ++ [] } =
      .ok (((Request.new header).setPayload (Message.payload ⟨reqHeader, resHeader, some (kind, P)⟩), false),
        { s with unread := [] ++ [] }) := previewContinue_ieof (hieof.trans hlast) _ _
  obtain ⟨o', s₂, hrefused, hserver⟩ := processRead_refused hname
    (le_of_le_of_eq hpreview (previewSize_setPayload _ _).symm) hcontinue
  obtain ⟨rfl, -⟩ := Prod.mk.inj (Except.ok.inj (hrefused.symm.trans hrun))
  rw [hok] at hserver
  exact absurd hserver (by decide)

end EchoServiceAux

open EchoServiceAux

/-- The framing with `ieof` in the preview. -/
def Framing.isComplete : Framing → Bool
  | complete _ => true
  | whole _ | preview _ _ => false

/-- `Echo` sends a body back exactly if the preview does not end with `ieof`. -/
theorem echoesBody_iff (echo : Echo) {name : Bytes} (hname : name ≠ []) {header : RequestHeader} {kind : BodyKind}
    {reqHeader resHeader b : Bytes} {framing : Framing} (h : AnnouncesBody header kind reqHeader resHeader)
    (hframing : framing.Carries header b) :
    EchoesBody echo name header kind reqHeader resHeader b framing ↔ framing.isComplete = false := by
  cases framing with
  | complete P => exact iff_of_false (not_echoesBody hname h hframing) (by simp [Framing.isComplete])
  | whole B =>
    refine iff_of_true (fun s rest hg hf hs => ?_) rfl
    obtain ⟨hpreview, hb⟩ := hframing.2
    obtain ⟨hreq, hres, hbody, hother, -⟩ := message_payload h.kind_ne reqHeader resHeader B
    rw [process_first h hframing _ hg hs]
    obtain ⟨o, hrun, ho⟩ := processRead_whole hname (lt_of_eq_of_lt (previewSize_setPayload _ _) hpreview) _
    refine ⟨o, _, hrun, ?_, ?_⟩
    · rw [ho]
      exact echo.ok_status
    · rw [ho]
      exact echoed_modify h rfl hreq hres (hbody.trans hb) hother
  | preview P Q =>
    refine iff_of_true (fun s rest hg hf hs => ?_) rfl
    obtain ⟨hpreview, hb, -, hieof, hQ, htQ⟩ := hframing.2
    obtain ⟨hreq, hres, hbody, hother, hlast⟩ := message_payload h.kind_ne reqHeader resHeader P
    obtain ⟨x, hx⟩ := getLast?_preview h.kind_ne h.grammar (h.lists P) h.length
    rw [if_pos (.inl h.nonempty)] at hx
    obtain ⟨p, hread, hfield, hkeep, hreq', hres'⟩ := readReqContinueData_body
      ((Request.new header).setPayload (Message.payload ⟨reqHeader, resHeader, some (kind, P)⟩)) h.kind_ne hx hQ htQ
    rw [process_first h hframing _ hg hs]
    obtain ⟨s', hcontinue⟩ := previewContinue_run (hlast.trans hieof) hread
      (s := { s with unread := Q.wire ++ rest }) hg hf rfl
    obtain ⟨o, hrun, ho⟩ := processRead_continued hname
      (le_of_le_of_eq hpreview (previewSize_setPayload _ _).symm) hcontinue
    refine ⟨o, s', hrun, ?_, ?_⟩
    · rw [ho]
      exact echo.ok_status
    · rw [ho]
      refine echoed_modify h rfl (hreq'.trans hreq) (hres'.trans hres) (hfield.trans ?_) fun k hk => (hkeep k hk).trans (hother k hk)
      rw [← hb, ← hbody]
      rfl

namespace EchoServiceAux

/-- The header of a `REQMOD` request with a request header of three bytes and a preview. -/
def previewHeader : RequestHeader :=
  { headerOf [(.reqHdr, 0), (.reqBody, 3)] with
    headers := [(bytes "Preview", bytes "30")]
    request := { method := bytes "REQMOD", uri := bytes "/", protocol := bytes "ICAP/1.0" } }

theorem previewHeader_announces : AnnouncesBody previewHeader .req (bytes "GET") [] where
  kind_ne := nofun
  method := rfl
  grammar _ := rfl
  nonempty := .inl (by decide)
  length := by decide
  lists _ := headerOf_lists (l := [(.reqHdr, 0), (.reqBody, 3)]) (by decide) (by decide)

/-- The zero chunk of a preview with the whole body. -/
def ieofLine : SizeLine :=
  { SizeLine.ofNat 0 with
    extension := some (bytes " ieof")
    extension_text := by
      rintro e ⟨⟩
      decide }

end EchoServiceAux

/-- A body that is sent in two parts is sent back. -/
theorem echoesBody_preview : ∃ echo : Echo, EchoesBody echo (bytes "echo") previewHeader .req (bytes "GET") [] (bytes "abc")
    (.preview (ChunkedBody.ofData (bytes "ab")) (ChunkedBody.ofData (bytes "c"))) := by
  obtain ⟨echo⟩ := Echo.exists_echo
  have hcarries : (Framing.preview (ChunkedBody.ofData (bytes "ab")) (ChunkedBody.ofData (bytes "c"))).Carries previewHeader
      (bytes "abc") := ⟨⟨by decide, rfl⟩, by decide, by decide, by decide, by decide, by decide, rfl⟩
  exact ⟨echo, (echoesBody_iff echo (by decide) previewHeader_announces hcarries).mpr rfl⟩

/-- A body that is sent in full as a preview is not. -/
theorem echoesBody_false : ¬∀ (echo : Echo) (name : Bytes) (header : RequestHeader) (kind : BodyKind) (reqHeader resHeader b : Bytes)
    (framing : Framing), name ≠ [] → AnnouncesBody header kind reqHeader resHeader → b ≠ [] → framing.Carries header b →
    EchoesBody echo name header kind reqHeader resHeader b framing := by
  intro h
  obtain ⟨echo⟩ := Echo.exists_echo
  let P : ChunkedBody := { ChunkedBody.ofData (bytes "ab") with last := ieofLine, last_zero := by decide }
  have hcarries : (Framing.complete P).Carries previewHeader (bytes "ab") := ⟨⟨by decide, rfl⟩, by decide, by decide, by decide⟩
  exact not_echoesBody (by decide) previewHeader_announces hcarries
    (h echo (bytes "echo") _ _ _ _ _ _ (by decide) previewHeader_announces (by decide) hcarries)

end BitzServer
