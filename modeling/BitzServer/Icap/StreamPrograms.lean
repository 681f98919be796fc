import BitzServer.Icap.ReqData
import BitzServer.Icap.Response

/-!
# What the programs of the library are made of

The readers and writers of the library are operations of the stream, one after the other. What holds of the operations and of programs in a
row then holds of each of them.
-/

namespace BitzServer

open Feed

/-- The programs that are made of operations of the stream. -/
inductive StreamProgram : {α : Type} → SockM α → Prop
  | pure {α : Type} (a : α) : StreamProgram (pure a)
  | lift {α : Type} (e : Except Fault α) : StreamProgram (liftM e)
  | bind {α γ : Type} {p : SockM α} {f : α → SockM γ} (hp : StreamProgram p) (hf : ∀ a, StreamProgram (f a)) : StreamProgram (p >>= f)
  | readChars {α : Type} (loop : Bytes → Except Fault (α × Bytes × Bool)) : StreamProgram (readChars loop)
  | read (n : Nat) : StreamProgram (read n)
  | good : StreamProgram good
  | timedout : StreamProgram timedout
  | unread : StreamProgram (do return (← get).unread)
  | write (data : Bytes) : StreamProgram (write data)
  | flush : StreamProgram flush
  | uninitialised : StreamProgram uninitialised
  | now : StreamProgram now
  /-- a loop that goes around at most as often as what is unread says -/
  | fuel {α : Type} {p : Nat → SockM α} (f : Bytes → Nat) (hp : ∀ n, StreamProgram (p n)) : StreamProgram fun s => p (f s.unread) s

namespace StreamProgram

/-- A fault touches no stream. -/
theorem throw {α : Type} (fault : Fault) : StreamProgram (throw fault : SockM α) := lift (.error fault)

/-- A test outside of the stream chooses between two programs. -/
theorem ite {α : Type} {c : Prop} [Decidable c] {p q : SockM α} (hp : StreamProgram p) (hq : StreamProgram q) :
    StreamProgram (if c then p else q) := by
  split
  · exact hp
  · exact hq

/-! ## Reading -/

/-- The loop of `read_data` reads and tests the stream only. -/
theorem readDataLoop : ∀ (n : Nat) (size : Int) (data : Bytes), StreamProgram (readDataLoop n size data)
  | 0, _, _ => throw _
  | n + 1, _, _ => ite (bind (read _) fun _ => bind good fun _ => ite (readDataLoop n _ _) (pure _)) (pure _)

/-- `read_data` reads and tests the stream only. -/
theorem readData (size : Int) : StreamProgram (readData size) := readDataLoop _ _ _

/-- `hextodec` may take a value that is not initialised. -/
theorem hextodec (hex : Bytes) : StreamProgram (hextodec hex) := by
  unfold BitzServer.hextodec
  split
  · exact pure _
  · exact bind uninitialised fun _ => pure _

/-- `read_chunk_header` reads one line. -/
theorem readChunkHeader (chunk : Chunk) : StreamProgram (readChunkHeader chunk) := by
  refine bind (readChars _) fun line => bind (lift _) fun chunkHeader => ite ?_ (pure _)
  exact bind (lift _) fun field => bind (ite (hextodec field) (pure _)) fun size => ite (bind (lift _) fun _ => pure _) (pure _)

/-- `read_chunk` reads the header, the data and the line end. -/
theorem readChunk : StreamProgram readChunk :=
  bind (readChunkHeader _) fun _ => bind (ite (readData _) (pure _)) fun _ => bind (readData 2) fun _ => pure _

/-- The loop of `read_chunked_payload` reads chunk after chunk. -/
theorem readChunkedPayloadLoop : ∀ (n : Nat) (payload : Bytes), StreamProgram (readChunkedPayloadLoop n payload)
  | 0, _ => throw _
  | n + 1, _ => bind readChunk fun _ => ite (pure _) (ite (readChunkedPayloadLoop n _) (pure _))

/-- `read_chunked_payload`, with as much fuel as there are bytes to read. -/
theorem readChunkedPayload (payload : Bytes) : StreamProgram (readChunkedPayload payload) := by
  refine fuel (p := fun n => do
    let r ← BitzServer.readChunkedPayloadLoop n payload
    return (decide (r.1.extention = bytes "ieof"), r.2)) (fun unread => unread.length + 1) fun n => ?_
  exact bind (readChunkedPayloadLoop n payload) fun _ => pure _

/-- The loop of `read_req_header` reads line after line. -/
theorem readReqHeaderLoop : ∀ (n : Nat) (data : Bytes), StreamProgram (readReqHeaderLoop n data)
  | 0, _ => throw _
  | n + 1, _ => bind (readChars _) fun _ => ite (readReqHeaderLoop n _) (pure _)

/-- `read_req_header`, with as much fuel as there are bytes to read. -/
theorem readReqHeader : StreamProgram readReqHeader := by
  refine fuel (p := fun n => do
    let data ← BitzServer.readReqHeaderLoop n []
    liftM (RequestHeader.new data)) (fun unread => unread.length + 1) fun n => ?_
  exact bind (readReqHeaderLoop n []) fun _ => lift _

/-- A header section is read as data, a body in chunks. -/
theorem readSection (entity : Entity) (dataLength : Int) (payload : Payload) : StreamProgram (readSection entity dataLength payload) := by
  refine ite ?_ (pure _)
  cases entity with
  | reqHdr | reqBody | resHdr | resBody => exact bind (readData dataLength) fun _ => pure _
  | nullBody | optBody => exact pure _

/-- The last section is read up to its end. -/
theorem readLast (entity : Entity) (payload : Payload) : StreamProgram (readLast entity payload) := by
  cases entity with
  | reqBody | resBody => exact bind (readChunkedPayload _) fun _ => pure _
  | reqHdr | resHdr | nullBody | optBody => exact pure _

/-- The loop of `read_req_data` reads section after section. -/
theorem readReqDataLoop : ∀ (entries : List (Entity × Int)) (payload : Payload), StreamProgram (readReqDataLoop entries payload)
  | [], _ => pure _
  | [(entity, _)], payload => ite (pure _) (readLast entity payload)
  | (_, _) :: next :: rest, _ =>
    ite (readReqDataLoop (next :: rest) _) (bind (readSection _ _ _) fun _ => readReqDataLoop (next :: rest) _)

/-- `read_req_data` reads the sections that the header lists. -/
theorem readReqData (request : Request) : StreamProgram (readReqData request) := bind (readReqDataLoop _ _) fun _ => pure _

/-- `read_req_continue_data` reads the last section. -/
theorem readReqContinueData (request : Request) : StreamProgram (readReqContinueData request) := by
  unfold BitzServer.readReqContinueData
  split
  · exact bind (readLast _ _) fun _ => pure _
  · exact pure _

/-! ## Writing -/

/-- `send_line` makes two writes. -/
theorem sendLine (line : Bytes) : StreamProgram (sendLine line) := bind (write line) fun _ => ite (write crlf) (pure _)

/-- The loop of `send_chunked` writes piece after piece. -/
theorem sendChunkedLoop (data : Bytes) : ∀ (n : Nat) (chunks : Int) (offset : Nat), StreamProgram (sendChunkedLoop data n chunks offset)
  | 0, _, _ => throw _
  | n + 1, _, _ => by
    refine bind (lift _) fun chunkedData => ite (pure _) (bind (sendLine _) fun _ => ite ?_ (pure _))
    exact bind (write chunkedData) fun _ => ite (ite (sendChunkedLoop data n _ _) (pure _)) (pure _)

/-- `send_chunked` writes the pieces and the end of the body. -/
theorem sendChunked (data : Bytes) : StreamProgram (sendChunked data) :=
  bind (sendChunkedLoop data _ _ _) fun _ => ite (write _) (pure _)

/-- The loop of `send_headers` writes line after line. -/
theorem sendHeaderLines : ∀ headers : List (Bytes × Bytes), StreamProgram (sendHeaderLines headers)
  | [] => pure _
  | _ :: headers => bind (sendLine _) fun _ => ite (sendHeaderLines headers) (pure _)

/-- `send_headers` writes the lines and the empty line behind them. -/
theorem sendHeaders (header : Header) : StreamProgram (sendHeaders header) :=
  bind (sendHeaderLines _) fun _ => ite (bind (sendLine _) fun _ => ite (write _) (pure _)) (pure _)

/-- A response header takes the time when it is made. -/
theorem responseHeader (status : Status) : StreamProgram (ResponseHeader.new status) :=
  bind now fun _ => bind (lift _) fun _ => bind (lift _) fun _ => bind (lift _) fun _ => bind (ite (lift _) (pure _)) fun _ => pure _

/-- A new response is its header. -/
theorem ofStatus (status : Status) : StreamProgram (Response.ofStatus status) := bind (responseHeader status) fun _ => pure _

/-- The payload is written section by section. -/
theorem sendContent (payload : Payload) : StreamProgram (sendContent payload) := by
  refine bind (ite (write _) (pure _)) fun _ => bind (ite (sendChunked _) (pure _)) fun _ => ?_
  exact bind (ite (write _) (pure _)) fun _ => bind (ite (sendChunked _) (pure _)) fun _ => pure _

/-- `send_response` writes the status line, the headers and the payload, and flushes. -/
theorem sendResponse (response : Response) : StreamProgram (sendResponse response) := by
  refine bind (sendLine _) fun _ => bind (ite (sendHeaders _) (pure _)) fun _ => ?_
  exact bind (ite (sendContent _) (pure _)) fun _ => bind flush fun _ => pure _

/-! ## On a stream that is no longer good -/

/-- What looks at the stream and does not repair it. -/
theorem dead_look {α : Type} {f : Conn → α} {g : Conn → Conn}
    (hg : ∀ s, s.good = false → (g s).good = false ∧ (g s).sent = s.sent ∧ (g s).flushed = s.flushed) {s s' : Conn} {a : α}
    (hrun : StateT.run (fun s => .ok (f s, g s) : SockM α) s = .ok (a, s')) (hdead : s.good = false) :
    s'.good = false ∧ s'.sent = s.sent ∧ s'.flushed = s.flushed := by
  obtain ⟨-, rfl⟩ := Prod.mk.inj (Except.ok.inj hrun)
  exact hg s hdead

/-- On a stream that is no longer good nothing is sent. -/
theorem dead {α : Type} {p : SockM α} (h : StreamProgram p) : ∀ {s a s'}, p.run s = .ok (a, s') → s.good = false →
    s'.good = false ∧ s'.sent = s.sent ∧ s'.flushed = s.flushed := by
  induction h with
  | pure a => exact dead_look (f := fun _ => a) (g := id) fun _ h => ⟨h, rfl, rfl⟩
  | lift e =>
    intro s a s' hrun hdead
    cases e with
    | error e => cases hrun
    | ok a =>
      obtain ⟨-, rfl⟩ := Prod.mk.inj (Except.ok.inj hrun)
      exact ⟨hdead, rfl, rfl⟩
  | bind _ _ ihp ihf =>
    intro s c s' hrun hdead
    obtain ⟨a, s₁, hrun₁, hrun₂⟩ := exists_of_run_bind hrun
    obtain ⟨hdead₁, hsent₁, hflushed₁⟩ := ihp hrun₁ hdead
    obtain ⟨hdead₂, hsent₂, hflushed₂⟩ := ihf a hrun₂ hdead₁
    exact ⟨hdead₂, hsent₂.trans hsent₁, hflushed₂.trans hflushed₁⟩
  | readChars loop =>
    intro s a s' hrun hdead
    rw [StateT.run, BitzServer.readChars, if_neg (by simp [hdead])] at hrun
    cases hloop : loop [] with
    | error e =>
      rw [hloop] at hrun
      cases hrun
    | ok r =>
      rw [hloop] at hrun
      obtain ⟨-, rfl⟩ := Prod.mk.inj (Except.ok.inj hrun)
      exact ⟨hdead, rfl, rfl⟩
  | read n =>
    intro s a s' hrun hdead
    rw [StateT.run, BitzServer.read, if_neg (by simp [hdead])] at hrun
    obtain ⟨-, rfl⟩ := Prod.mk.inj (Except.ok.inj hrun)
    exact ⟨hdead, rfl, rfl⟩
  | good => exact dead_look fun _ h => ⟨h, rfl, rfl⟩
  | timedout => exact dead_look fun _ h => ⟨h, rfl, rfl⟩
  | unread => exact dead_look fun _ h => ⟨h, rfl, rfl⟩
  | write data =>
    intro s b s' hrun hdead
    cases written_of_run hrun with
    | dead _ => exact ⟨hdead, rfl, rfl⟩
    | failed hgood _ => exact absurd (hdead.symm.trans hgood) Bool.false_ne_true
    | written hgood _ => exact absurd (hdead.symm.trans hgood) Bool.false_ne_true
  | flush =>
    refine dead_look (f := fun _ => ()) (g := fun s => if s.good then { s with flushed := s.sent } else s) fun s hdead => ?_
    rw [if_neg (by simp [hdead])]
    exact ⟨hdead, rfl, rfl⟩
  | uninitialised =>
    exact dead_look (f := fun s => s.stack 0) (g := fun s => { s with stack := fun i => s.stack (i + 1) }) fun _ h => ⟨h, rfl, rfl⟩
  | now =>
    exact dead_look (f := fun s => s.stamps 0) (g := fun s => { s with stamps := fun i => s.stamps (i + 1) }) fun _ h => ⟨h, rfl, rfl⟩
  | fuel f _ ih => exact fun {s} => ih (f s.unread)

end StreamProgram

end BitzServer
