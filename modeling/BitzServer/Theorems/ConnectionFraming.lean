import BitzServer.Icap.WireRequest
import BitzServer.Server.Worker

/-!
# Request framing on a persistent connection

Requests that are written back to back on a connection, against the passes of `serve_client`. A pass takes of a request what the
handler of its method takes, and the next pass begins there: the passes stay with the requests as long as nothing of a request is
left.
-/

namespace BitzServer

open Feed

/-- The passes begin where the requests begin, and each reads the header block of its request; a pass behind them begins behind the last
request. -/
def PassesMatch (rest : Bytes) : List WireRequest → List Pass → Prop
  | [], [] => True
  | [], pass :: _ => pass.start = rest
  | _ :: _, [] => False
  | r :: rs, pass :: passes => (pass.start = (r :: rs).flatMap WireRequest.wire ++ rest ∧
      pass.reqHeader.rawData = blockLines r.lines) ∧ PassesMatch rest rs passes

/-- The serving loop returns, and its passes match the requests. -/
def Frames (serve : SockM (Nat × List Pass)) (requests : List WireRequest) (rest : Bytes) (s : Conn) : Prop :=
  ∃ left passes s', serve.run s = .ok ((left, passes), s') ∧ PassesMatch rest requests passes

/-- A request that is read whole: a handler with modifiers reads a body whose sizes fit an `int` and that has no trailers, all other
requests must not encapsulate anything. -/
def WireRequest.Drained (r : WireRequest) : Prop :=
  if r.method = bytes "REQMOD" ∨ r.method = bytes "RESPMOD" then
    ∀ b ∈ r.message.body, b.1 ≠ .opt ∧ b.2.Small ∧ b.2.trailers = []
  else r.message.wire = []

namespace ConnectionFramingAux

/-- What a pass leaves of the message of a request. -/
def leftover (r : WireRequest) : Bytes :=
  if r.method = bytes "REQMOD" ∨ r.method = bytes "RESPMOD" then r.message.leftover else r.message.wire

/-- A request that is read whole leaves nothing. -/
theorem leftover_eq_nil_iff (r : WireRequest) : leftover r = [] ↔ r.Drained := by
  have hmessage : r.message.leftover = [] ↔ ∀ b ∈ r.message.body, b.1 ≠ .opt ∧ b.2.Small ∧ b.2.trailers = [] := by
    unfold Message.leftover
    rcases r.message.body with _ | ⟨kind, B⟩
    · simp
    · have hleft := B.leftover_eq_nil_iff
      have hwire : B.wire ≠ [] := List.ne_nil_of_length_pos B.length_wire_pos
      cases kind with
      | opt => simp [hwire]
      | req | res => simpa using hleft
  unfold leftover WireRequest.Drained
  split
  · exact hmessage
  · exact Iff.rfl

/-- `read_req_data` of a parsed request takes its message up to what it leaves. -/
theorem readReqData_parsed {r : WireRequest} {h : RequestHeader} (hp : r.Parsed h) : ∃ taken p,
    r.message.wire = taken ++ r.message.leftover ∧ Consumes (readReqData (Request.new h)) taken ((Request.new h).setPayload p, true) := by
  rcases hitems : r.encapsulated with _ | items
  · have hempty : r.message = ⟨[], [], none⟩ := by
      have := r.described
      rwa [hitems] at this
    have hneg : ∀ x ∈ h.sortEncapsulated, x.2 < 0 := by
      intro x hx
      obtain ⟨e, -, rfl⟩ := List.mem_map.mp (StableSort.mem_sortBy.mp hx)
      show h.encapsulated e < 0
      rw [hp.listsNothing hitems]
      decide
    refine ⟨[], Payload.empty, by rw [hempty]; rfl, ?_⟩
    unfold readReqData
    show Consumes (readReqDataLoop h.sortEncapsulated Payload.empty >>= _) [] _
    rw [readReqDataLoop_negative hneg]
    exact (Consumes.pure _).map _
  · obtain ⟨taken, p, hwire, hread, -⟩ := readReqData_message r.message (Request.new h) (hp.lists ⟨items, hitems⟩)
    exact ⟨taken, p, hwire, hread⟩

/-- A handler with modifiers takes the message of a request up to what `read_req_data` leaves. -/
theorem process_parsed (handlers : List Handler) {r : WireRequest} {h : RequestHeader} (hp : r.Parsed h) {s : Conn} {tail : Bytes}
    (hg : s.good = true) (hstays : s.StaysGood) (hu : s.unread = r.message.wire ++ tail) :
    ∃ outcome s', (process handlers h).run s = .ok (outcome, s') ∧
      s'.unread = r.message.leftover ++ tail ∧ s'.good = true ∧ s'.StaysGood ∧ outcome.reqHeader.rawData = h.rawData ∧
      outcome.reqHeader.value (bytes "Connection") = h.value (bytes "Connection") := by
  obtain ⟨taken, p, hwire, hread⟩ := readReqData_parsed hp
  have hvalue : ∀ key, ((Request.new h).setPayload p).header.value key = h.value key := by
    intro key
    show ((h.updateEncapsulated p).headers.lookup key).getD [] = _
    rw [Header.updateEncapsulated_headers]
    rfl
  have hpreview : ((Request.new h).setPayload p).previewSize < 0 := by
    unfold Request.previewSize
    rw [hvalue, hp.preview]
    decide
  rw [hwire, List.append_assoc] at hu
  obtain ⟨outcome, s', hrun, ⟨hunread, -, hkept⟩, hheader⟩ :=
    processRead_noPreview handlers hpreview { s with unread := r.message.leftover ++ tail }
  obtain ⟨hstays', hgood, -⟩ := hkept hstays
  refine ⟨outcome, s', ?_, hunread, hgood.trans hg, hstays', by rw [hheader]; rfl, by rw [hheader, hvalue]⟩
  rw [process, run_bind_of_ok (hread s _ hg hu)]
  exact hrun

/-- The response to a parsed request leaves of the message what a pass leaves. -/
theorem respond_parsed (reqmod respmod : List Handler) {r : WireRequest} {h : RequestHeader} (hp : r.Parsed h) {s : Conn}
    {tail : Bytes} (hg : s.good = true) (hstays : s.StaysGood) (hu : s.unread = r.message.wire ++ tail) : ∃ h' response s',
      ((Worker.new reqmod respmod).respond h).run s = .ok ((h', response), s') ∧ s'.unread = leftover r ++ tail ∧
      s'.good = true ∧ s'.StaysGood ∧ h'.rawData = h.rawData ∧ h'.value (bytes "Connection") = h.value (bytes "Connection") := by
  have hfind := Worker.findReqHandler_new reqmod respmod r.method
  have hmodifiers : ∀ handlers, (Worker.new reqmod respmod).findReqHandler r.method = some (.modifiers handlers) →
      leftover r = r.message.leftover → ∃ h' response s',
        ((Worker.new reqmod respmod).respond h).run s = .ok ((h', response), s') ∧ s'.unread = leftover r ++ tail ∧
        s'.good = true ∧ s'.StaysGood ∧ h'.rawData = h.rawData ∧
        h'.value (bytes "Connection") = h.value (bytes "Connection") := by
    intro handlers hhandlers hleft
    obtain ⟨outcome, s', hrun, hrest⟩ := process_parsed handlers hp hg hstays hu
    rw [hleft]
    refine ⟨outcome.reqHeader, outcome.response, s', ?_, hrest⟩
    rw [Worker.respond, hp.method, hhandlers]
    exact run_bind_of_ok hrun
  by_cases h1 : r.method = bytes "RESPMOD"
  · exact hmodifiers _ (hfind.trans (if_pos h1)) (if_pos (.inr h1))
  by_cases h2 : r.method = bytes "REQMOD"
  · exact hmodifiers _ (hfind.trans ((if_neg h1).trans (if_pos h2))) (if_pos (.inl h2))
  have hleft : leftover r = r.message.wire := if_neg (by simp [h1, h2])
  rw [if_neg h1, if_neg h2, ← hp.method] at hfind
  have hkeeps : Returns Conn.KeepsInput (fun r => r.1 = h) ((Worker.new reqmod respmod).respond h) := by
    refine Worker.respond_keeps ?_
    by_cases h3 : h.request.method = bytes "OPTIONS"
    · exact .inr ⟨_, List.cons_ne_nil _ _, hfind.trans (if_pos h3)⟩
    · exact .inl (hfind.trans (if_neg h3))
  obtain ⟨⟨h', response⟩, s', hrun, ⟨hunread, -, hkept⟩, hsame⟩ := hkeeps s
  obtain rfl : h' = h := hsame
  obtain ⟨hstays', hgood, -⟩ := hkept hstays
  exact ⟨h', response, s', hrun, by rw [hleft, hunread, hu], hgood.trans hg, hstays', rfl, rfl⟩

/-- A pass over a request begins at the request, reads its header block, goes on, and leaves the stream at what it leaves of the
message. -/
theorem servePass_wire (reqmod respmod : List Handler) (r : WireRequest) {s : Conn} {tail : Bytes} (hg : s.good = true)
    (hstays : s.StaysGood) (hu : s.unread = r.wire ++ tail) : ∃ pass s', (Worker.new reqmod respmod).servePass.run s = .ok (pass, s') ∧
      pass.start = r.wire ++ tail ∧ pass.reqHeader.rawData = blockLines r.lines ∧ pass.goesOn = true ∧
      s'.unread = leftover r ++ tail ∧ s'.good = true ∧ s'.StaysGood := by
  obtain ⟨h, hread, hp⟩ := r.readReqHeader_wire hg hu
  obtain ⟨h', response, s1, hrespond, hunread, hgood, hstays1, hraw, hconn⟩ :=
    respond_parsed reqmod respmod hp (s := { s with unread := r.message.wire ++ tail }) hg hstays rfl
  obtain ⟨response', s2, hanswer, ⟨hunread2, -, hkept⟩, -⟩ := Worker.answer_within h' response s1
  obtain ⟨hstays2, hgood2, -⟩ := hkept hstays1
  have hout : timedout.run { s with unread := r.message.wire ++ tail } = .ok (false, { s with unread := r.message.wire ++ tail }) := by
    show Except.ok (s.stalls && !s.good && !s.broken, _) = _
    rw [hg]
    simp
  refine ⟨{ start := s.unread, reqHeader := h', response := some response' }, s2, ?_, hu, hraw.trans hp.rawData, ?_,
    hunread2.trans hunread, hgood2.trans hgood, hstays2⟩
  · rw [Worker.servePass, run_bind_of_ok (show (get : SockM Conn).run s = .ok (s, s) from rfl), run_bind_of_ok hread,
      run_bind_of_ok hout, if_neg (by decide), run_bind_of_ok hrespond, run_bind_of_ok hanswer]
    rfl
  · simp [Pass.goesOn, RequestHeader.keepsAlive, hconn, hp.connection]

/-- Where a pass over a request has been made, the loop goes on with the other requests. -/
theorem frames_cons {reqmod respmod : List Handler} {r : WireRequest} {rs : List WireRequest} {rest : Bytes} {maxRequests : Nat}
    {pass : Pass} {s s1 : Conn} (hpass : (Worker.new reqmod respmod).servePass.run s = .ok (pass, s1))
    (hstart : pass.start = (r :: rs).flatMap WireRequest.wire ++ rest) (hraw : pass.reqHeader.rawData = blockLines r.lines)
    (hgoes : pass.goesOn = true) : Frames ((Worker.new reqmod respmod).serveClientLoop (maxRequests + 1)) (r :: rs) rest s ↔
      Frames ((Worker.new reqmod respmod).serveClientLoop maxRequests) rs rest s1 := by
  obtain ⟨left, pass', passes, s', hrun, -, -⟩ := Worker.serveClientLoop_run reqmod respmod maxRequests s1
  have hrun' := Worker.serveClientLoop_goesOn hpass hgoes hrun
  constructor
  · rintro ⟨left', passes', s'', h, hmatch⟩
    rw [hrun'] at h
    obtain rfl : pass :: pass' :: passes = passes' := congrArg (fun r => r.1.2) (Except.ok.inj h)
    exact ⟨left, _, s', hrun, hmatch.2⟩
  · rintro ⟨left', passes', s'', h, hmatch⟩
    rw [hrun] at h
    obtain rfl : pass' :: passes = passes' := congrArg (fun r => r.1.2) (Except.ok.inj h)
    exact ⟨left, _, s', hrun', ⟨hstart, hraw⟩, hmatch⟩

/-- Passes do not match requests that begin elsewhere. -/
theorem not_frames {reqmod respmod : List Handler} {requests : List WireRequest} {rest extra : Bytes} {maxRequests : Nat}
    {s : Conn} (hne : extra ≠ []) (hu : s.unread = extra ++ (requests.flatMap WireRequest.wire ++ rest)) :
    ¬Frames ((Worker.new reqmod respmod).serveClientLoop maxRequests) requests rest s := by
  rintro ⟨left, passes, s', hrun, hmatch⟩
  obtain ⟨left', pass, passes', s'', hrun', -, hstart⟩ := Worker.serveClientLoop_run reqmod respmod maxRequests s
  rw [hrun'] at hrun
  obtain rfl : pass :: passes' = passes := congrArg (fun r => r.1.2) (Except.ok.inj hrun)
  have hbegins : pass.start = requests.flatMap WireRequest.wire ++ rest := by
    cases requests with
    | nil => exact hmatch
    | cons r rs => exact hmatch.1.1
  have hlen := congrArg List.length (hbegins.symm.trans (hstart.trans hu))
  have hpos := List.length_pos_iff.mpr hne
  simp only [List.length_append] at hlen
  omega

/-- The loop over requests: the passes match if and only if every request that a pass follows is read whole. -/
theorem frames_loop (reqmod respmod : List Handler) (rest : Bytes) : ∀ (requests : List WireRequest) (maxRequests : Nat) (s : Conn),
    requests.length ≤ maxRequests + 1 → s.good = true → s.StaysGood → s.unread = requests.flatMap WireRequest.wire ++ rest →
    (Frames ((Worker.new reqmod respmod).serveClientLoop maxRequests) requests rest s ↔
      ∀ r ∈ requests.take maxRequests, r.Drained) := by
  intro requests
  induction requests with
  | nil =>
    intro maxRequests s _ _ _ hu
    obtain ⟨left, pass, passes, s', hrun, -, hstart⟩ := Worker.serveClientLoop_run reqmod respmod maxRequests s
    exact iff_of_true ⟨left, _, s', hrun, hstart.trans hu⟩ (by simp)
  | cons r rs ih =>
    intro maxRequests s hmax hg hstays hu
    have hu' := hu
    rw [List.flatMap_cons, List.append_assoc] at hu'
    obtain ⟨pass, s1, hpass, hstart, hraw, hgoes, hunread, hgood, hstays1⟩ := servePass_wire reqmod respmod r hg hstays hu'
    rw [← List.append_assoc, ← List.flatMap_cons] at hstart
    rcases maxRequests with _ | maxRequests
    · -- the last request that is served
      obtain rfl : rs = [] := List.eq_nil_of_length_eq_zero (by simp only [List.length_cons] at hmax; omega)
      refine iff_of_true ⟨0, [pass], s1, ?_, ⟨hstart, hraw⟩, trivial⟩ (by simp)
      rw [Worker.serveClientLoop, run_bind_of_ok hpass]
      rfl
    · rw [frames_cons hpass hstart hraw hgoes, List.take_succ_cons, List.forall_mem_cons]
      by_cases hdrained : r.Drained
      · rw [(leftover_eq_nil_iff r).mpr hdrained, List.nil_append] at hunread
        rw [ih maxRequests s1 (by simp only [List.length_cons] at hmax ⊢; omega) hgood hstays1 hunread]
        exact (and_iff_right hdrained).symm
      · have hne : leftover r ≠ [] := fun hnil => hdrained ((leftover_eq_nil_iff r).mp hnil)
        exact iff_of_false (not_frames hne hunread) (fun h => hdrained h.1)

end ConnectionFramingAux

open ConnectionFramingAux

/-- The passes of `serve_client` match requests written back to back if and only if every request that is followed by a pass is read whole:
all of them if there may be more passes than requests, and otherwise all but the last. -/
theorem frames_iff (reqmod respmod : List Handler) (requests : List WireRequest) (rest : Bytes) {maxRequests : Nat}
    (hn : requests.length ≤ maxRequests) (hmax : maxRequests < 2 ^ 32) {s : Conn} (hg : s.good = true) (hstays : s.StaysGood)
    (hu : s.unread = requests.flatMap WireRequest.wire ++ rest) :
    Frames ((Worker.new reqmod respmod).serveClient maxRequests) requests rest s ↔
      ∀ r ∈ requests.take (maxRequests - 1), r.Drained := by
  have hpasses : requests.take (toUInt32 (maxRequests + (2 ^ 32 - 1))) = requests.take (maxRequests - 1) := by
    rcases Nat.eq_zero_or_pos maxRequests with rfl | hpos
    · rw [List.eq_nil_of_length_eq_zero (Nat.le_zero.mp hn), List.take_nil, List.take_nil]
    · have hloop : toUInt32 (maxRequests + (2 ^ 32 - 1)) = maxRequests - 1 := by
        unfold toUInt32
        omega
      rw [hloop]
  rw [← hpasses]
  refine frames_loop reqmod respmod rest requests _ s ?_ hg hstays hu
  unfold toUInt32
  omega

namespace ConnectionFramingAux

/-- A short header block. -/
def sampleHead (method : Bytes) (encapsulated : Option (List Item)) : RequestHead where
  method := method
  uri := bytes "/"
  protocol := bytes "ICAP/1.0"
  before := [.keepAlive (bytes " ") [] (by decide)]
  encapsulated := encapsulated
  after := [.other (bytes "Host: localhost:1344") (by decide)]

/-- The item `=0` of an entity. -/
def itemAtZero (e : Entity) : Item where
  entity := e
  digits := bytes "0"
  lead := bytes " "
  beforeEq := []
  afterEq := []
  trail := []
  digits_ne := by decide
  digits_dec := by decide
  blanks := by decide

/-- An `OPTIONS` request without a message. -/
def optionsRequest : WireRequest where
  toRequestHead := sampleHead (bytes "OPTIONS") none
  message := ⟨[], [], none⟩
  tokens := by decide
  short := by decide
  keeps := ⟨_, List.mem_cons_self, rfl⟩
  described := rfl
  offsets := by decide

/-- An `OPTIONS` request with a body. -/
def optionsBodyRequest : WireRequest where
  toRequestHead := sampleHead (bytes "OPTIONS") (some [itemAtZero .optBody])
  message := ⟨[], [], some (.opt, ChunkedBody.ofData (bytes "x"))⟩
  tokens := by decide
  short := by decide
  keeps := ⟨_, List.mem_cons_self, rfl⟩
  described := List.Perm.refl _
  offsets := by decide

/-- A `REQMOD` request with a body. -/
def reqmodRequest : WireRequest where
  toRequestHead := sampleHead (bytes "REQMOD") (some [itemAtZero .reqBody])
  message := ⟨[], [], some (.req, ChunkedBody.ofData (bytes "x"))⟩
  tokens := by decide
  short := by decide
  keeps := ⟨_, List.mem_cons_self, rfl⟩
  described := List.Perm.refl _
  offsets := by decide

end ConnectionFramingAux

/-- A `REQMOD` request with a body is read whole before the next request, and so is one without a message before the next pass. -/
theorem frames_reqmod : Frames ((Worker.new [] []).serveClient 5) [reqmodRequest, optionsRequest] []
    (Conn.ofInput ([reqmodRequest, optionsRequest].flatMap WireRequest.wire ++ [])) := by
  refine (frames_iff [] [] [reqmodRequest, optionsRequest] [] (by decide) (by decide) rfl (Conn.staysGood_of_nil rfl) rfl).mpr ?_
  intro r hr
  replace hr : r ∈ [reqmodRequest, optionsRequest] := List.mem_of_mem_take hr
  rcases List.mem_pair.mp hr with rfl | rfl
  · unfold WireRequest.Drained
    rw [if_pos (.inl rfl)]
    rintro b ⟨⟩
    decide
  · rw [← leftover_eq_nil_iff]
    decide

/-- The body of an `OPTIONS` request is read as a header block by the next pass, although no other request follows. -/
theorem frames_false : ¬∀ (reqmod respmod : List Handler) (requests : List WireRequest) (rest : Bytes) (maxRequests : Nat) (s : Conn),
    requests.length ≤ maxRequests → maxRequests < 2 ^ 32 → s.good = true → s.StaysGood →
    s.unread = requests.flatMap WireRequest.wire ++ rest →
    Frames ((Worker.new reqmod respmod).serveClient maxRequests) requests rest s := by
  intro h
  have hframes := h [] [] [optionsBodyRequest] [] 2 (Conn.ofInput _) (by decide) (by decide) rfl (Conn.staysGood_of_nil rfl) rfl
  have hdrained := (frames_loop [] [] [] [optionsBodyRequest] 1 (Conn.ofInput _) (by decide) rfl (Conn.staysGood_of_nil rfl) rfl).mp
    hframes optionsBodyRequest (by simp)
  rw [← leftover_eq_nil_iff] at hdrained
  exact absurd hdrained (by decide)

end BitzServer
