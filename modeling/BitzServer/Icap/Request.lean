import BitzServer.Icap.Encapsulated
import BitzServer.Icap.Lines

/-!
# Requests

`icap::RequestHeader` and `icap::Request`, and `read_req_header`, which reads the header block of a request up to the empty line.
-/

namespace BitzServer

open Feed

/-- `request_t` -/
structure RequestLine where
  method : Bytes
  uri : Bytes
  protocol : Bytes

/-- `icap::RequestHeader` -/
structure RequestHeader extends Header where
  request : RequestLine
  rawData : Bytes

namespace RequestHeader

/-- The request line of `read_header`: three fields, or it is ignored. -/
def readRequestLine (request : RequestLine) (requestData : Bytes) : Except Fault RequestLine := do
  let fields ← split (trim requestData) (bytes " ")
  if fields.length = 3 then
    let method ← vecAt fields 0
    let uri ← vecAt fields 1
    let protocol ← vecAt fields 2
    return { method, uri, protocol }
  else return request

/-- One pass of the loop of `read_header` over the header lines: a line with two fields is attached, others are ignored. -/
def readHeaderLine (h : Header) (line : Bytes) : Except Fault Header := do
  let headerData ← split line (bytes ":")
  if headerData.length = 2 then
    let key ← vecAt headerData 0
    let value ← vecAt headerData 1
    h.attach key value
  else return h

/-- `RequestHeader::RequestHeader` with `read_header` -/
def new (rawData : Bytes) : Except Fault RequestHeader := do
  let request : RequestLine := { method := [], uri := [], protocol := bytes "ICAP/1.0" }
  let data ← split rawData (bytes "\r\n")
  if data.length > 0 then
    let requestData ← vecAt data 0
    let request ← readRequestLine request requestData
    let header ← data.tail.foldlM readHeaderLine Header.new
    return { header with request, rawData }
  else return { Header.new with request, rawData }

end RequestHeader

/-- `icap::Request` -/
structure Request where
  header : RequestHeader
  payload : Payload

namespace Request

/-- `Request::Request` -/
def new (reqHeader : RequestHeader) : Request := { header := reqHeader, payload := Payload.empty }

/-- `Request::payload` with an argument: the header is updated as well. -/
def setPayload (request : Request) (payload : Payload) : Request :=
  { header := { request.header with toHeader := request.header.updateEncapsulated payload }, payload := payload }

/-- `preview_size`: -1 without a `Preview` header -/
def previewSize (request : Request) : Int :=
  let s := request.header.value (bytes "Preview")
  if s ≠ [] then atoi s else -1

end Request

/-- The loop of `read_req_header`: `data` has been read. -/
def readReqHeaderLoop : Nat → Bytes → SockM Bytes
  | 0, _ => throw .diverges
  | fuel + 1, data => do
    let buffer ← readLineBuf icapBufferSize true
    if buffer.length > 2 then readReqHeaderLoop fuel (data ++ buffer) else return data

/-- `read_req_header`: every pass but the last reads three bytes or more. -/
def readReqHeader : SockM RequestHeader := fun s =>
  (do
    let data ← readReqHeaderLoop (s.unread.length + 1) []
    liftM (RequestHeader.new data) : SockM RequestHeader) s

/-! ## Parsing a header does not fail -/

namespace RequestAux

open EncapsulatedAux

/-- A fold of functions that do not fail does not fail. -/
theorem foldlM_total {α β ε : Type} {f : β → α → Except ε β} (hf : ∀ b a, ∃ b', f b a = .ok b') :
    ∀ (l : List α) (b : β), ∃ b', l.foldlM f b = .ok b' := by
  intro l
  induction l with
  | nil => exact fun b => ⟨b, rfl⟩
  | cons a l ih =>
    intro b
    obtain ⟨b₁, h₁⟩ := hf b a
    obtain ⟨b₂, h₂⟩ := ih b₁
    exact ⟨b₂, by rw [List.foldlM_cons, h₁]; exact h₂⟩

theorem attach_total (h : Header) (key value : Bytes) : ∃ h', h.attach key value = .ok h' := by
  unfold Header.attach
  by_cases hk : trim key = bytes "Encapsulated"
  · exact ⟨_, by simp only [hk, if_true, attachEncapsulated_eq]; rfl⟩
  · exact ⟨_, by simp only [hk, if_false]; rfl⟩

theorem readHeaderLine_total (h : Header) (line : Bytes) : ∃ h', RequestHeader.readHeaderLine h line = .ok h' := by
  unfold RequestHeader.readHeaderLine
  rw [split_eq]
  rcases line.splitOnP (fun c => (bytes ":").contains c) with _ | ⟨key, _ | ⟨value, _ | ⟨c, l⟩⟩⟩
  · exact ⟨h, rfl⟩
  · exact ⟨h, rfl⟩
  · exact attach_total h key value
  · exact ⟨h, rfl⟩

theorem readRequestLine_total (r : RequestLine) (requestData : Bytes) :
    ∃ r', RequestHeader.readRequestLine r requestData = .ok r' := by
  unfold RequestHeader.readRequestLine
  rw [split_eq]
  rcases (trim requestData).splitOnP (fun c => (bytes " ").contains c) with
    _ | ⟨method, _ | ⟨uri, _ | ⟨protocol, _ | ⟨c, l⟩⟩⟩⟩
  · exact ⟨r, rfl⟩
  · exact ⟨r, rfl⟩
  · exact ⟨r, rfl⟩
  · exact ⟨_, rfl⟩
  · exact ⟨r, rfl⟩

theorem ok_bind {ε α β : Type} (a : α) (f : α → Except ε β) : (Except.ok a >>= f) = f a := rfl

/-- The request header of a text, from what its first field and its other fields are parsed to. -/
theorem new_of_parts {rawData requestData : Bytes} {lines : List Bytes} {r : RequestLine} {h : Header}
    (hcut : rawData.splitOnP (fun c => (bytes "\r\n").contains c) = requestData :: lines)
    (hr : RequestHeader.readRequestLine { method := [], uri := [], protocol := bytes "ICAP/1.0" } requestData = .ok r)
    (hh : lines.foldlM RequestHeader.readHeaderLine Header.new = .ok h) :
    RequestHeader.new rawData = .ok { h with request := r, rawData := rawData } := by
  have h0 : vecAt (requestData :: lines) 0 = .ok requestData := rfl
  rw [RequestHeader.new, split_eq, hcut, ok_bind, if_pos (by simp), h0, ok_bind, hr, ok_bind, List.tail_cons, hh, ok_bind]
  rfl

end RequestAux

open RequestAux

/-- Every text is parsed, and kept as it is. -/
theorem RequestHeader.new_total (rawData : Bytes) : ∃ h, RequestHeader.new rawData = .ok h ∧ h.rawData = rawData := by
  rcases hcut : rawData.splitOnP (fun c => (bytes "\r\n").contains c) with _ | ⟨requestData, lines⟩
  · exact absurd hcut (List.splitOnP_ne_nil _ _)
  · obtain ⟨r, hr⟩ := readRequestLine_total { method := [], uri := [], protocol := bytes "ICAP/1.0" } requestData
    obtain ⟨h, hh⟩ := foldlM_total readHeaderLine_total lines Header.new
    exact ⟨_, new_of_parts hcut hr hh, rfl⟩

end BitzServer
