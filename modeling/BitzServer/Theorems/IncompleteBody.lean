import BitzServer.Icap.HeaderBlock
import BitzServer.Server.RequestHandler

/-!
# Incomplete and malformed requests

The readers return on every stream. What `read_req_data` and `read_req_continue_data` report about one that ends too early or holds
no chunked body: both return true, so that a handler goes on with whatever has been read.
-/

namespace BitzServer

open Feed

/-- Whatever the peer has sent, whatever the header lists and whatever the stack holds: reading a header, parsing it, and reading the
data of a request before and after a preview return, without a failed precondition. -/
theorem reading_returns (s : Conn) :
    (∃ header s', readReqHeader.run s = .ok (header, s') ∧ s.Shrinks s') ∧
    (∀ data, ∃ header, RequestHeader.new data = .ok header) ∧
    ∀ request, (∃ r s', (readReqData request).run s = .ok (r, s') ∧ s.Shrinks s') ∧
      ∃ r s', (readReqContinueData request).run s = .ok (r, s') ∧ s.Shrinks s' := by
  refine ⟨readReqHeader_run s, fun data => ?_, fun request => ⟨?_, ?_⟩⟩
  · obtain ⟨header, hnew, -⟩ := RequestHeader.new_total data
    exact ⟨header, hnew⟩
  · obtain ⟨r, s', hrun, hshrinks, -⟩ := readReqData_returns request s
    exact ⟨r, s', hrun, hshrinks⟩
  · obtain ⟨r, s', hrun, hshrinks, -⟩ := readReqContinueData_returns request s
    exact ⟨r, s', hrun, hshrinks⟩

/-- What a stream still delivers: nothing once it is no longer good. -/
def Conn.delivered (s : Conn) : Bytes := if s.good then s.unread else []

/-- The sorted list of a header ends with a body that is read in chunks. -/
def Header.NamesBodyLast (h : Header) : Prop :=
  ∃ e x, h.sortEncapsulated.getLast? = some (e, x) ∧ 0 ≤ x ∧ (e = .reqBody ∨ e = .resBody)

/-- The input starts with a well-formed chunked body, if the header names one. -/
def BodyComplete (h : Header) (input : Bytes) : Prop :=
  h.NamesBodyLast → ∃ (B : ChunkedBody) (rest : Bytes), input = B.wire ++ rest

/-- The input starts with the declared sections, each of them in full, and goes on with the body. -/
def Complete (h : Header) (input : Bytes) : Prop :=
  ∃ sections rest : Bytes, input = sections ++ rest ∧ sections.length = declaredLength h.sortEncapsulated ∧ BodyComplete h rest

/-- `read_req_data` returns true only if the input is complete and the declared sections have been read. Else it returns false, and
`process` answers 500 without a call of a modifier. -/
def ReportsIncomplete (handlers : List Handler) (header : RequestHeader) (s : Conn) : Prop :=
  ∃ request read s', (readReqData (Request.new header)).run s = .ok ((request, read), s') ∧
    (read = true → Complete header.toHeader s.delivered ∧
      s'.unread.length + declaredLength header.sortEncapsulated ≤ s.unread.length) ∧
    (¬Complete header.toHeader s.delivered → read = false ∧ ∃ outcome s'', (process handlers header).run s = .ok (outcome, s'') ∧
      outcome.response.header.status = .serverError ∧ outcome.calls = [])

/-- `read_req_continue_data` returns true only if the input starts with the body. Else it returns false. -/
def ReportsIncompleteContinue (request : Request) (s : Conn) : Prop :=
  ∃ request' read s', (readReqContinueData request).run s = .ok ((request', read), s') ∧
    (read = true → BodyComplete request.header.toHeader s.delivered) ∧
    (¬BodyComplete request.header.toHeader s.delivered → read = false)

namespace IncompleteBodyAux

/-- `read_req_data` of a complete input reads the declared sections. -/
theorem readReqData_reads {header : RequestHeader} {s : Conn} (hc : Complete header.toHeader s.delivered) :
    ∃ request s', (readReqData (Request.new header)).run s = .ok ((request, true), s') ∧
      s'.unread.length + declaredLength header.sortEncapsulated ≤ s.unread.length := by
  obtain ⟨sections, rest, hinput, hlen, -⟩ := hc
  by_cases hg : s.good = true
  · have hle : declaredLength header.sortEncapsulated ≤ s.unread.length := by
      rw [Conn.delivered, if_pos hg] at hinput
      rw [hinput, ← hlen, List.length_append]
      exact Nat.le_add_right _ _
    obtain ⟨p, s', hrun, hread⟩ := readReqDataLoop_reads header.sortEncapsulated Payload.empty s hg hle
    exact ⟨(Request.new header).setPayload p, s', by rw [readReqData]; exact run_bind_of_ok hrun, hread⟩
  · have hzero : declaredLength header.sortEncapsulated = 0 := by
      rw [Conn.delivered, if_neg hg] at hinput
      rw [← hlen, (List.append_eq_nil_iff.mp hinput.symm).1, List.length_nil]
    obtain ⟨⟨request, read⟩, s', hrun, hshrinks, hread⟩ := readReqData_returns (Request.new header) s
    obtain rfl : read = true := hread
    rw [hzero]
    exact ⟨request, s', hrun, hshrinks⟩

/-- What is reported as complete is complete: `read_req_data` returns true. -/
theorem complete_of_reports {handlers : List Handler} {header : RequestHeader} {s : Conn}
    (h : ReportsIncomplete handlers header s) : Complete header.toHeader s.delivered := by
  obtain ⟨request, read, s', hrun, htrue, -⟩ := h
  obtain ⟨⟨request', read'⟩, s'', hrun', -, hread⟩ := readReqData_returns (Request.new header) s
  rw [hrun] at hrun'
  have heq : read = read' := congrArg (fun r => r.1.2) (Except.ok.inj hrun')
  exact (htrue (heq.trans hread)).1

/-- The same for `read_req_continue_data`. -/
theorem complete_of_reportsContinue {request : Request} {s : Conn} (h : ReportsIncompleteContinue request s) :
    BodyComplete request.header.toHeader s.delivered := by
  obtain ⟨request', read, s', hrun, htrue, -⟩ := h
  obtain ⟨⟨request'', read'⟩, s'', hrun', -, hread⟩ := readReqContinueData_returns request s
  rw [hrun] at hrun'
  have heq : read = read' := congrArg (fun r => r.1.2) (Except.ok.inj hrun')
  exact htrue (heq.trans hread)

end IncompleteBodyAux

open IncompleteBodyAux

/-- Incomplete input is reported exactly where there is none: what the two readers return fits the input if and only if the input is
complete. -/
theorem reportsIncomplete_iff (handlers : List Handler) (header : RequestHeader) (request : Request) (s : Conn) :
    (ReportsIncomplete handlers header s ↔ Complete header.toHeader s.delivered) ∧
      (ReportsIncompleteContinue request s ↔ BodyComplete request.header.toHeader s.delivered) := by
  refine ⟨⟨complete_of_reports, fun hc => ?_⟩, ⟨complete_of_reportsContinue, fun hc => ?_⟩⟩
  · obtain ⟨request', s', hrun, hread⟩ := readReqData_reads hc
    exact ⟨request', true, s', hrun, fun _ => ⟨hc, hread⟩, fun hno => absurd hc hno⟩
  · obtain ⟨⟨request', read⟩, s', hrun, -, -⟩ := readReqContinueData_returns request s
    exact ⟨request', read, s', hrun, fun _ => hc, fun hno => absurd hc hno⟩

/-- A stream that ends before the body is not reported. -/
theorem reportsIncomplete_false : ¬∀ (handlers : List Handler) (header : RequestHeader) (s : Conn),
    header.NamesBodyLast → s.good = true → ReportsIncomplete handlers header s := by
  intro h
  let header : RequestHeader := { Header.new.setEncapsulated .reqBody 0 with request := ⟨[], [], []⟩, rawData := [] }
  have hlast : header.NamesBodyLast := ⟨.reqBody, 0, by decide, Int.le_refl 0, .inl rfl⟩
  obtain ⟨sections, rest, hinput, -, hbody⟩ := complete_of_reports (h [] header (Conn.ofInput []) hlast rfl)
  obtain ⟨B, rest', hrest⟩ := hbody hlast
  have hnil : sections = [] ∧ rest = [] := List.append_eq_nil_iff.mp hinput.symm
  have hwire : B.wire = [] := (List.append_eq_nil_iff.mp (hrest.symm.trans hnil.2)).1
  have hpos := B.length_wire_pos
  rw [hwire] at hpos
  exact lt_irrefl _ hpos

end BitzServer
