import BitzServer.Icap.ReqData
import BitzServer.Icap.Response
import BitzServer.Lib.Online

/-!
# The icap library does not look ahead

What the readers and writers of the library have done on a stream does not depend on bytes that come behind those they have taken: a peer
that waits for an answer before it sends more is served as one that sends all at once.
-/

namespace BitzServer

open Feed

/-- A stream with more bytes behind those that are there. -/
def Conn.more (t : Bytes) (s : Conn) : Conn := { s with unread := s.unread ++ t }

/-- The socket as a channel: more bytes come behind those that are there, and the writes go out in order. -/
instance : Channel Conn Byte Byte where
  live s := s.good = true
  more := Conn.more
  output s := s.sent
  output_more _ _ := rfl
  more_append t u s := by rw [Conn.more, Conn.more, Conn.more, List.append_assoc]

namespace LookAheadAux

variable {t : Bytes}

/-- What writes nothing takes nothing back. -/
theorem grows_of_writesNothing {α : Type} {p : SockM α} (h : Keeps Conn.WritesNothing p) : Keeps Grows p := by
  refine Keeps.mono h fun s s' hs => ?_
  show s.sent <+: s'.sent
  rw [hs.1]

/-! ## The operations of the stream -/

/-- A loop over `get()` that stops before the end of its input stops there on a longer one. -/
theorem readChars_online {α : Type} {loop : Bytes → Except Fault (α × Bytes × Bool)}
    (h : ∀ input a rest, loop input = .ok (a, rest, true) → loop (input ++ t) = .ok (a, rest ++ t, true)) :
    Online t Eq (readChars loop) (readChars loop) := by
  refine Online.of_quiet ?_ (Keeps.mono (readChars_writesNothing loop) fun _ _ hs => hs.1) ?_
  · intro s a s' hrun
    refine ⟨(readChars_writesNothing loop s a s' hrun).1, fun hdead => ?_⟩
    replace hdead : ¬s.good = true := hdead
    rw [StateT.run, readChars, if_neg hdead] at hrun
    cases hloop : loop [] with
    | error e =>
      rw [hloop] at hrun
      cases hrun
    | ok r =>
      rw [hloop] at hrun
      obtain ⟨-, rfl⟩ := Prod.mk.inj (Except.ok.inj hrun)
      exact hdead
  · intro s a s' hs hrun hs'
    replace hs : s.good = true := hs
    replace hs' : s'.good = true := hs'
    rw [StateT.run, readChars, if_pos hs] at hrun
    cases hloop : loop s.unread with
    | error e =>
      rw [hloop] at hrun
      cases hrun
    | ok r =>
      obtain ⟨b, rest, g⟩ := r
      rw [hloop] at hrun
      obtain ⟨rfl, rfl⟩ := Prod.mk.inj (Except.ok.inj hrun)
      obtain rfl : g = true := hs'
      have hgood : (Conn.more t s).good = true := hs
      have hmore := readChars_run (s := Conn.more t s) (by rw [if_pos hgood]; exact h _ _ _ hloop)
      rw [if_pos hgood] at hmore
      exact hmore

/-- `read` takes no more than it asks for. -/
theorem read_online (n : Nat) : Online t Eq (read n) (read n) := by
  refine Online.of_quiet ?_ (Keeps.mono (read_writesNothing n) fun _ _ hs => hs.1) ?_
  · intro s a s' hrun
    refine ⟨(read_writesNothing n s a s' hrun).1, fun hdead => ?_⟩
    replace hdead : ¬s.good = true := hdead
    rw [StateT.run, read, if_neg hdead] at hrun
    obtain ⟨-, rfl⟩ := Prod.mk.inj (Except.ok.inj hrun)
    exact hdead
  · intro s a s' hs hrun hs'
    replace hs : s.good = true := hs
    rw [StateT.run, read, if_pos hs] at hrun
    by_cases hn : n ≤ s.unread.length
    · rw [if_pos hn] at hrun
      obtain ⟨rfl, rfl⟩ := Prod.mk.inj (Except.ok.inj hrun)
      have hn' : n ≤ (Conn.more t s).unread.length := by
        simp only [Conn.more, List.length_append]
        omega
      have hgood : (Conn.more t s).good = true := hs
      show (read n).run (Conn.more t s) = _
      rw [StateT.run, read, if_pos hgood, if_pos hn', Conn.more, List.take_append_of_le_length hn, List.drop_append_of_le_length hn]
      rfl
    · rw [if_neg hn] at hrun
      obtain ⟨-, rfl⟩ := Prod.mk.inj (Except.ok.inj hrun)
      exact absurd hs' Bool.false_ne_true

/-- What reads nothing and looks at nothing that is unread. -/
theorem test_online {α : Type} {f : Conn → α} {g : Conn → Conn} (hf : ∀ s, f (Conn.more t s) = f s)
    (hg : ∀ s, g (Conn.more t s) = Conn.more t (g s)) (hgood : ∀ s, (g s).good = s.good) (hsent : ∀ s, (g s).sent = s.sent) :
    Online t Eq (fun s => .ok (f s, g s) : SockM α) (fun s => .ok (f s, g s)) := by
  refine Online.of_quiet ?_ ?_ ?_
  · rintro s _ _ ⟨⟩
    refine ⟨hsent s, fun hdead => ?_⟩
    rwa [show Channel.live (g s) = (s.good = true) from by rw [← hgood s]; rfl]
  · rintro s _ _ ⟨⟩
    exact hsent s
  · rintro s _ _ - ⟨⟩ -
    show Except.ok (f (Conn.more t s), g (Conn.more t s)) = _
    rw [hf, hg]
    rfl

/-- The state of the stream does not tell what is to come. -/
theorem good_online : Online t Eq good good := test_online (fun _ => rfl) (fun _ => rfl) (fun _ => rfl) fun _ => rfl

/-- A timeout does not tell what is to come. -/
theorem timedout_online : Online t Eq timedout timedout := test_online (fun _ => rfl) (fun _ => rfl) (fun _ => rfl) fun _ => rfl

/-- A value that is not initialised does not come from the stream. -/
theorem uninitialised_online : Online t Eq uninitialised uninitialised :=
  test_online (fun _ => rfl) (fun _ => rfl) (fun _ => rfl) fun _ => rfl

/-- The clock does not tell what is to come. -/
theorem now_online : Online t Eq now now := test_online (fun _ => rfl) (fun _ => rfl) (fun _ => rfl) fun _ => rfl

/-- A flush reads nothing. -/
theorem flush_online : Online t Eq flush flush := by
  refine test_online (f := fun _ => ()) (g := fun s => if s.good then { s with flushed := s.sent } else s) (fun _ => rfl) ?_ ?_ ?_
  · intro s
    show (if s.good = true then _ else _) = Conn.more t (if s.good = true then _ else _)
    split <;> rfl
  · intro s
    split <;> rfl
  · intro s
    split <;> rfl

/-- Which write fails does not depend on what is unread. -/
theorem write_more {data : Bytes} {s s' : Conn} {b : Bool} (h : (write data).run s = .ok (b, s')) :
    (write data).run (Conn.more t s) = .ok (b, Conn.more t s') := by
  cases written_of_run h with
  | dead hgood => simp [StateT.run, write, Conn.more, hgood]
  | failed hgood hfault => simp [StateT.run, write, Conn.more, hgood, hfault]
  | written hgood hfault => simp [StateT.run, write, Conn.more, hgood, hfault]

/-- A write reads nothing. -/
theorem write_online (data : Bytes) : Online t Eq (write data) (write data) where
  live := fun _ hrun _ => ⟨_, write_more hrun, rfl⟩
  ended := by
    intro s b s' b' s₂ _ hrun _ hlong
    obtain ⟨-, rfl⟩ := Prod.mk.inj (Except.ok.inj ((write_more hrun).symm.trans hlong))
    exact List.prefix_refl s'.sent
  silent := by
    intro s b s' hrun hdead
    cases written_of_run hrun with
    | dead _ => exact ⟨hdead, rfl⟩
    | failed hgood _ => exact absurd hgood hdead
    | written hgood _ => exact absurd hgood hdead
  grows := by
    intro s b s' hrun
    cases written_of_run hrun with
    | dead _ => exact List.prefix_refl s.sent
    | failed _ _ => exact List.prefix_refl s.sent
    | written _ _ => exact List.prefix_append s.sent data

/-! ## Lines and data -/

/-- The loop of `read_line` stops at the same byte with more behind it. -/
theorem readLineLoop_more (inclEndl : Bool) : ∀ (input line : Bytes) (cLast : Byte) (out rest : Bytes),
    readLineLoop inclEndl line cLast input = .ok (out, rest, true) →
      readLineLoop inclEndl line cLast (input ++ t) = .ok (out, rest ++ t, true) := by
  intro input
  induction input with
  | nil =>
    intro line cLast out rest h
    cases h
  | cons c input ih =>
    intro line cLast out rest h
    rw [List.cons_append]
    rw [readLineLoop] at h ⊢
    by_cases hpos : isPositive c = true
    · rw [if_pos hpos] at h ⊢
      by_cases hend : cLast = cr ∧ c = lf
      · rw [if_pos hend] at h ⊢
        cases inclEndl with
        | true =>
          obtain ⟨rfl, rfl, -⟩ := Prod.mk.inj (Except.ok.inj h)
          rfl
        | false =>
          cases herase : eraseLast line with
          | error e =>
            rw [herase] at h
            cases h
          | ok erased =>
            rw [herase] at h
            obtain ⟨rfl, hrest⟩ := Prod.mk.inj (Except.ok.inj h)
            obtain ⟨rfl, -⟩ := Prod.mk.inj hrest
            rfl
      · rw [if_neg hend] at h ⊢
        exact ih _ _ _ _ h
    · rw [if_neg hpos] at h ⊢
      obtain ⟨rfl, hrest⟩ := Prod.mk.inj (Except.ok.inj h)
      obtain ⟨rfl, -⟩ := Prod.mk.inj hrest
      rfl

/-- `read_line` looks at nothing behind the line. -/
theorem readLine_online (inclEndl : Bool) : Online t Eq (readLine inclEndl) (readLine inclEndl) :=
  readChars_online fun input out rest h => readLineLoop_more inclEndl input [] 0 out rest h

/-- The loop of the other `read_line` stops at the same byte with more behind it. -/
theorem readLineBufLoop_more (bufLength : Nat) (inclEndl : Bool) : ∀ (input buf : Bytes) (cLast : Byte) (out rest : Bytes),
    readLineBufLoop bufLength inclEndl buf cLast input = (out, rest, true) →
      readLineBufLoop bufLength inclEndl buf cLast (input ++ t) = (out, rest ++ t, true) := by
  intro input
  induction input with
  | nil =>
    intro buf cLast out rest h
    rw [readLineBufLoop] at h
    by_cases hfull : buf.length < bufLength - 1
    · rw [if_pos hfull] at h
      cases h
    · rw [if_neg hfull] at h
      obtain ⟨rfl, hrest⟩ := Prod.mk.inj h
      obtain ⟨rfl, -⟩ := Prod.mk.inj hrest
      rw [readLineBufLoop.eq_def]
      exact if_neg hfull
  | cons c input ih =>
    intro buf cLast out rest h
    rw [List.cons_append]
    rw [readLineBufLoop.eq_def] at h ⊢
    dsimp only at h ⊢
    by_cases hfull : buf.length < bufLength - 1
    · rw [if_pos hfull] at h ⊢
      by_cases hpos : isPositive c = true
      · simp only [if_pos hpos] at h ⊢
        by_cases hend : cLast = cr ∧ c = lf
        · simp only [if_pos hend] at h ⊢
          cases inclEndl with
          | true =>
            obtain ⟨rfl, rfl, -⟩ := Prod.mk.inj h
            rfl
          | false =>
            obtain ⟨rfl, rfl, -⟩ := Prod.mk.inj h
            rfl
        · simp only [if_neg hend] at h ⊢
          exact ih _ _ _ _ h
      · simp only [if_neg hpos] at h ⊢
        obtain ⟨rfl, hrest⟩ := Prod.mk.inj h
        obtain ⟨rfl, -⟩ := Prod.mk.inj hrest
        rfl
    · rw [if_neg hfull] at h ⊢
      obtain ⟨rfl, hrest⟩ := Prod.mk.inj h
      obtain ⟨rfl, -⟩ := Prod.mk.inj hrest
      rfl

/-- The `read_line` into a buffer looks at nothing behind the line. -/
theorem readLineBuf_online (bufLength : Nat) (inclEndl : Bool) :
    Online t Eq (readLineBuf bufLength inclEndl) (readLineBuf bufLength inclEndl) := by
  refine readChars_online fun input out rest h => ?_
  rw [readLineBufLoop_more bufLength inclEndl input [] 0 out rest (Except.ok.inj h)]

/-- The loop of `read_data` looks at nothing behind the data. -/
theorem readDataLoop_online : ∀ (fuel : Nat) (size : Int) (data : Bytes),
    Online t Eq (readDataLoop fuel size data) (readDataLoop fuel size data)
  | 0, _, _ => Online.throw _ (Keeps.throw _)
  | fuel + 1, size, data => by
    rw [readDataLoop]
    split
    · refine Online.bind_eq (read_online _) fun buffer => Online.bind_eq good_online fun g => ?_
      split
      · exact readDataLoop_online fuel _ _
      · exact Online.pure rfl
    · exact Online.pure rfl

/-- `read_data` looks at nothing behind the data. -/
theorem readData_online (size : Int) : Online t Eq (readData size) (readData size) := readDataLoop_online _ _ _

/-! ## Chunks -/

/-- `hextodec` does not read the stream. -/
theorem hextodec_online (hex : Bytes) : Online t Eq (hextodec hex) (hextodec hex) := by
  unfold hextodec
  split
  · exact Online.pure rfl
  · exact Online.bind_eq uninitialised_online fun _ => Online.pure rfl

/-- `read_chunk_header` looks at nothing behind its line. -/
theorem readChunkHeader_online (chunk : Chunk) : Online t Eq (readChunkHeader chunk) (readChunkHeader chunk) := by
  refine Online.bind_eq (readLine_online false) fun line => Online.bind_eq (Online.lift _) fun chunkHeader => ?_
  split
  · refine Online.bind_eq (Online.lift _) fun field => Online.bind_eq ?_ fun size => ?_
    · split
      · exact hextodec_online field
      · exact Online.pure rfl
    · dsimp only
      split
      · exact Online.bind_eq (Online.lift _) fun _ => Online.pure rfl
      · exact Online.pure rfl
  · exact Online.pure rfl

/-- `read_chunk` looks at nothing behind the chunk. -/
theorem readChunk_online : Online t Eq readChunk readChunk := by
  refine Online.bind_eq (readChunkHeader_online _) fun chunk => Online.bind_eq ?_ fun data => ?_
  · split
    · exact readData_online _
    · exact Online.pure rfl
  · exact Online.bind_eq (readData_online 2) fun _ => Online.pure rfl

/-- With more fuel the loop does the same. -/
theorem readChunkedPayloadLoop_online : ∀ (n m : Nat) (payload : Bytes), n ≤ m →
    Online t Eq (readChunkedPayloadLoop n payload) (readChunkedPayloadLoop m payload)
  | 0, m, payload, _ => Online.throw _ (grows_of_writesNothing (readChunkedPayloadLoop_writesNothing m payload))
  | n + 1, m + 1, payload, h => by
    refine Online.bind_eq readChunk_online fun chunk => ?_
    dsimp only
    split
    · exact Online.pure rfl
    · split
      · exact readChunkedPayloadLoop_online n m _ (Nat.le_of_succ_le_succ h)
      · exact Online.pure rfl

/-- More bytes give a loop more fuel. -/
theorem length_more (s : Conn) : s.unread.length + 1 ≤ (Channel.more t s).unread.length + 1 := by
  show s.unread.length + 1 ≤ (s.unread ++ t).length + 1
  rw [List.length_append]
  omega

/-- `read_chunked_payload` looks at nothing behind the body. -/
theorem readChunkedPayload_online (payload : Bytes) : Online t Eq (readChunkedPayload payload) (readChunkedPayload payload) := by
  refine Online.ofFuel (f := fun s => s.unread.length + 1) (p := fun n => do
    let r ← readChunkedPayloadLoop n payload
    return (decide (r.1.extention = bytes "ieof"), r.2)) (fun n m h => ?_) length_more
  exact Online.bind_eq (readChunkedPayloadLoop_online n m payload h) fun _ => Online.pure rfl

/-! ## Requests -/

/-- `read_line` into a buffer writes nothing. -/
theorem readLineBuf_writesNothing (bufLength : Nat) (inclEndl : Bool) : Keeps Conn.WritesNothing (readLineBuf bufLength inclEndl) :=
  readChars_writesNothing _

/-- The loop of `read_req_header` writes nothing. -/
theorem readReqHeaderLoop_writesNothing : ∀ (fuel : Nat) (data : Bytes), Keeps Conn.WritesNothing (readReqHeaderLoop fuel data)
  | 0, _ => Keeps.throw _
  | fuel + 1, data => by
    refine Keeps.bind (readLineBuf_writesNothing _ _) fun buffer => ?_
    split
    · exact readReqHeaderLoop_writesNothing fuel _
    · exact Keeps.pure _

/-- The loop of `read_req_header` looks at nothing behind the empty line. -/
theorem readReqHeaderLoop_online : ∀ (n m : Nat) (data : Bytes), n ≤ m →
    Online t Eq (readReqHeaderLoop n data) (readReqHeaderLoop m data)
  | 0, m, data, _ => Online.throw _ (grows_of_writesNothing (readReqHeaderLoop_writesNothing m data))
  | n + 1, m + 1, data, h => by
    refine Online.bind_eq (readLineBuf_online _ _) fun buffer => ?_
    split
    · exact readReqHeaderLoop_online n m _ (Nat.le_of_succ_le_succ h)
    · exact Online.pure rfl

/-- A section is read without a look behind it. -/
theorem readSection_online (entity : Entity) (dataLength : Int) (payload : Payload) :
    Online t Eq (readSection entity dataLength payload) (readSection entity dataLength payload) := by
  have hread : ∀ f : Bytes → Payload,
      Online t Eq (do return f (← readData dataLength) : SockM Payload) (do return f (← readData dataLength)) :=
    fun f => Online.bind_eq (readData_online dataLength) fun _ => Online.pure rfl
  unfold readSection
  split
  · cases entity with
    | reqHdr | reqBody | resHdr | resBody => exact hread _
    | nullBody | optBody => exact Online.pure rfl
  · exact Online.pure rfl

/-- The last section is read without a look behind it. -/
theorem readLast_online (entity : Entity) (payload : Payload) : Online t Eq (readLast entity payload) (readLast entity payload) := by
  cases entity with
  | reqBody | resBody => exact Online.bind_eq (readChunkedPayload_online _) fun _ => Online.pure rfl
  | reqHdr | resHdr | nullBody | optBody => exact Online.pure rfl

/-- The loop of `read_req_data` looks at nothing behind the sections. -/
theorem readReqDataLoop_online : ∀ (entries : List (Entity × Int)) (payload : Payload),
    Online t Eq (readReqDataLoop entries payload) (readReqDataLoop entries payload)
  | [], _ => Online.pure rfl
  | [(entity, offset)], payload => by
    rw [readReqDataLoop]
    split
    · exact Online.pure rfl
    · exact readLast_online entity payload
  | (entity, offset) :: next :: rest, payload => by
    rw [readReqDataLoop]
    split
    · exact readReqDataLoop_online (next :: rest) payload
    · exact Online.bind_eq (readSection_online _ _ _) fun _ => readReqDataLoop_online (next :: rest) _

/-! ## Responses -/

/-- A response header does not come from the stream. -/
theorem responseHeader_online (status : Status) : Online t Eq (ResponseHeader.new status) (ResponseHeader.new status) := by
  refine Online.bind_eq now_online fun stamp => Online.bind_eq (Online.lift _) fun h => Online.bind_eq (Online.lift _) fun h => ?_
  refine Online.bind_eq (Online.lift _) fun h => Online.bind_eq ?_ fun h => Online.pure rfl
  split
  · exact Online.lift _
  · exact Online.pure rfl

/-- `send_line` reads nothing. -/
theorem sendLine_online (line : Bytes) : Online t Eq (sendLine line) (sendLine line) := by
  refine Online.bind_eq (write_online line) fun written => ?_
  split
  · exact write_online crlf
  · exact Online.pure rfl

/-- The loop of `send_chunked` reads nothing. -/
theorem sendChunkedLoop_online (data : Bytes) : ∀ (fuel : Nat) (chunks : Int) (offset : Nat),
    Online t Eq (sendChunkedLoop data fuel chunks offset) (sendChunkedLoop data fuel chunks offset)
  | 0, _, _ => Online.throw _ (Keeps.throw _)
  | fuel + 1, chunks, offset => by
    refine Online.bind_eq (Online.lift _) fun chunkedData => ?_
    split
    · exact Online.pure rfl
    · refine Online.bind_eq (sendLine_online _) fun sent => ?_
      split
      · refine Online.bind_eq (write_online chunkedData) fun sent => ?_
        split
        · split
          · exact sendChunkedLoop_online data fuel _ _
          · exact Online.pure rfl
        · exact Online.pure rfl
      · exact Online.pure rfl

/-- `send_chunked` reads nothing. -/
theorem sendChunked_online (data : Bytes) : Online t Eq (sendChunked data) (sendChunked data) := by
  refine Online.bind_eq (sendChunkedLoop_online data _ _ _) fun sent => ?_
  split
  · exact write_online _
  · exact Online.pure rfl

/-- The loop of `send_headers` reads nothing. -/
theorem sendHeaderLines_online : ∀ headers : List (Bytes × Bytes), Online t Eq (sendHeaderLines headers) (sendHeaderLines headers)
  | [] => Online.pure rfl
  | (key, value) :: headers => by
    refine Online.bind_eq (sendLine_online _) fun sent => ?_
    split
    · exact sendHeaderLines_online headers
    · exact Online.pure rfl

/-- `send_headers` reads nothing. -/
theorem sendHeaders_online (header : Header) : Online t Eq (sendHeaders header) (sendHeaders header) := by
  refine Online.bind_eq (sendHeaderLines_online _) fun sent => ?_
  split
  · refine Online.bind_eq (sendLine_online _) fun sent => ?_
    split
    · exact write_online _
    · exact Online.pure rfl
  · exact Online.pure rfl

/-- A section is sent or passed over. -/
theorem section_online {p : SockM Bool} (hp : Online t Eq p p) (c : Prop) [Decidable c] :
    Online t Eq (if c then p else pure true : SockM Bool) (if c then p else pure true) := by
  split
  · exact hp
  · exact Online.pure rfl

/-- The payload is written and nothing is read. -/
theorem sendContent_online (payload : Payload) : Online t Eq (sendContent payload) (sendContent payload) := by
  refine Online.bind_eq (section_online (write_online _) _) fun _ => Online.bind_eq (section_online (sendChunked_online _) _) fun _ => ?_
  refine Online.bind_eq (section_online (write_online _) _) fun _ => Online.bind_eq (section_online (sendChunked_online _) _) fun _ => ?_
  exact Online.pure rfl

end LookAheadAux

open LookAheadAux

/-- `read_req_header` does not look ahead. -/
theorem readReqHeader_online (t : Bytes) : Online t Eq readReqHeader readReqHeader := by
  refine Online.ofFuel (f := fun s => s.unread.length + 1) (p := fun n => do
    let data ← readReqHeaderLoop n []
    liftM (RequestHeader.new data)) (fun n m h => ?_) length_more
  exact Online.bind_eq (readReqHeaderLoop_online n m [] h) fun _ => Online.lift _

/-- `read_req_data` does not look ahead. -/
theorem readReqData_online (t : Bytes) (request : Request) : Online t Eq (readReqData request) (readReqData request) :=
  Online.bind_eq (readReqDataLoop_online _ _) fun _ => Online.pure rfl

/-- `read_req_continue_data` does not look ahead. -/
theorem readReqContinueData_online (t : Bytes) (request : Request) :
    Online t Eq (readReqContinueData request) (readReqContinueData request) := by
  unfold readReqContinueData
  split
  · exact Online.bind_eq (readLast_online _ _) fun _ => Online.pure rfl
  · exact Online.pure rfl

/-- What `send_response` writes does not depend on what is unread. -/
theorem sendResponse_online (t : Bytes) (response : Response) : Online t Eq (sendResponse response) (sendResponse response) := by
  refine Online.bind_eq (sendLine_online _) fun rSuccess => Online.bind_eq ?_ fun rSuccess => ?_
  · split
    · exact sendHeaders_online _
    · exact Online.pure rfl
  · refine Online.bind_eq ?_ fun _ => Online.bind_eq flush_online fun _ => Online.pure rfl
    split
    · exact sendContent_online _
    · exact Online.pure rfl

/-- A new response does not come from the stream. -/
theorem ofStatus_online (t : Bytes) (status : Status) : Online t Eq (Response.ofStatus status) (Response.ofStatus status) :=
  Online.bind_eq (responseHeader_online status) fun _ => Online.pure rfl

end BitzServer
