import BitzServer.Icap.Lines

/-!
# Chunked bodies

The chunk reader (`read_chunk_header`, `read_chunk`, `read_chunked_payload`) and the chunk writer (`send_chunked`) of
`lib/icap/util.cpp`.
-/

namespace BitzServer

open Feed

/-! ## Reading -/

/-- `chunk_t` -/
structure Chunk where
  size : Nat
  extention : Bytes
  data : Bytes
  deriving DecidableEq

/-- `read_chunk_header`, which fills in the chunk it is given -/
def readChunkHeader (chunk : Chunk) : SockM Chunk := do
  let line ← readLine false
  let chunkHeader ← split line (bytes ";")
  if chunkHeader.length > 0 then
    let field ← vecAt chunkHeader 0
    let size ← (if field.length > 0 then hextodec field else pure chunk.size : SockM Nat)
    let chunk := { chunk with size := size }
    if chunkHeader.length = 2 then return { chunk with extention := trim (← vecAt chunkHeader 1) }
    else return chunk
  else return chunk

def readChunk : SockM Chunk := do
  let chunk ← readChunkHeader { size := 0, extention := [], data := [] }
  let data ← (if chunk.size > 0 then readData (toInt32 chunk.size) else pure chunk.data : SockM Bytes)
  -- the `\r\n` after the chunk
  let _ ← readData 2
  return { chunk with data := data }

/-- `read_chunk_size` -/
def readChunkSize : SockM Nat := do
  let line ← readLine false
  let chunkHeader ← split line (bytes ";")
  hextodec (← vecAt chunkHeader 0)

/-- The loop of `read_chunked` over the chunks: `chunkedData` has been read. `offset` is an `unsigned int`. -/
def readChunkedLoop : Nat → Bytes → SockM Bytes
  | 0, _ => throw .diverges
  | fuel + 1, chunkedData => do
    let chunkSize ← readChunkSize
    if chunkSize > 0 then
      let offset := toUInt32 chunkedData.length
      let data ← readData (toInt32 chunkSize)
      if (chunkedData ++ data).length - offset ≠ chunkSize then return chunkedData ++ data
      else
        -- the `\r\n` after the chunk
        let _ ← readData 2
        readChunkedLoop fuel (chunkedData ++ data)
    else return chunkedData

/-- The loop at the end of `read_chunked`: lines are read up to one without text. -/
def skipLines : Nat → SockM Unit
  | 0 => throw .diverges
  | fuel + 1 => do
    let line ← readLine true
    if line.length > 2 then skipLines fuel else return ()

/-- `read_chunked`: every pass of a loop but the last reads a byte. -/
def readChunked : SockM Bytes := fun s =>
  (do
    let chunkedData ← readChunkedLoop (s.unread.length + 1) []
    skipLines (s.unread.length + 1)
    return chunkedData : SockM Bytes) s

/-- The loop of `read_chunked_payload`: the chunk it stops at and the payload. -/
def readChunkedPayloadLoop : Nat → Bytes → SockM (Chunk × Bytes)
  | 0, _ => throw .diverges
  | fuel + 1, payload => do
    let chunk ← readChunk
    let payload := payload ++ chunk.data
    if chunk.data.length ≠ chunk.size then return (chunk, payload)
    else if chunk.size > 0 then readChunkedPayloadLoop fuel payload
    else return (chunk, payload)

/-- `read_chunked_payload`: whether `ieof` was there, and the payload appended to. Every pass but the last reads a byte. -/
def readChunkedPayload (payload : Bytes) : SockM (Bool × Bytes) := fun s =>
  (do
    let (chunk, payload) ← readChunkedPayloadLoop (s.unread.length + 1) payload
    return (decide (chunk.extention = bytes "ieof"), payload) : SockM (Bool × Bytes)) s

/-! ## Writing -/

/-- `send_line`, false if a write throws -/
def sendLine (line : Bytes) : SockM Bool := do
  let written ← write line
  if written then write crlf else return false

/-- `send_data`, false if the write throws -/
def sendData (data : Bytes) : SockM Bool := write data

/-- The loop of `send_chunked`: a pass starts with `chunks` and `offset`. -/
def sendChunkedLoop (data : Bytes) : Nat → Int → Nat → SockM Bool
  | 0, _, _ => throw .diverges
  | fuel + 1, chunks, offset => do
    let chunkedData ← substr data offset (some icapBufferSize)
    if chunkedData.length ≤ 0 then return true
    else
      let sent ← sendLine (dectohex (toUInt32 chunkedData.length))
      if sent then
        let sent ← sendData chunkedData
        if sent then
          -- `chunks--` and `while ( chunks > 0 )`
          if chunks - 1 > 0 then sendChunkedLoop data fuel (chunks - 1) (toUInt32 (offset + chunkedData.length))
          else return true
        else return false
      else return false

/-- `send_chunked`, false if a send fails -/
def sendChunked (data : Bytes) : SockM Bool := do
  let chunks : Int := if data.length > icapBufferSize then toInt32 (data.length / icapBufferSize : Nat) else 0
  let sent ← sendChunkedLoop data (chunks.toNat + 1) chunks 0
  if sent then sendData (crlf ++ bytes "0" ++ crlf ++ crlf) else return false

/-! ## The reader returns on every stream -/

theorem vecAt_of_lt {α : Type} {v : List α} {i : Nat} (h : i < v.length) : vecAt v i = .ok v[i] := by
  rw [vecAt, List.getElem?_eq_getElem h]

/-- `read_chunk_header` returns on every stream and leaves the data of the chunk alone. -/
theorem readChunkHeader_returns (chunk : Chunk) :
    Returns Conn.Shrinks (fun c => c.data = chunk.data) (readChunkHeader chunk) := by
  unfold readChunkHeader
  refine Returns.bind (readLine_within false) fun line _ => ?_
  refine Returns.bind (Within.lift (split_eq _ _)) fun header _ => ?_
  split
  · rename_i h0
    refine Returns.bind (Within.lift (vecAt_of_lt h0)) fun field _ => ?_
    refine Returns.bind (R := Conn.Shrinks) (Q := fun _ => True) ?_ fun size _ => ?_
    · split
      · exact (hextodec_within field).mono Conn.KeepsInput.shrinks
      · exact Within.pure _
    · split
      · rename_i h2
        have h1 : 1 < header.length := by omega
        exact Returns.bind (Within.lift (vecAt_of_lt h1)) fun _ _ => Returns.pure rfl
      · exact Returns.pure rfl
  · exact Returns.pure rfl

/-- `read_chunk` returns on every stream and takes at least the data of the chunk. -/
theorem readChunk_run (s : Conn) :
    ∃ chunk s', readChunk.run s = .ok (chunk, s') ∧ chunk.data.length + s'.unread.length ≤ s.unread.length := by
  obtain ⟨chunk, s1, h1, hs1, hdata⟩ := readChunkHeader_returns { size := 0, extention := [], data := [] } s
  obtain ⟨data, s2, h2, hs2⟩ : ∃ data s2,
      (if chunk.size > 0 then readData (toInt32 chunk.size) else pure chunk.data : SockM Bytes).run s1 = .ok (data, s2) ∧
        data.length + s2.unread.length ≤ s1.unread.length := by
    by_cases hsize : chunk.size > 0
    · rw [if_pos hsize]
      obtain ⟨data, s2, h2, hs2, -⟩ := readData_run (toInt32 chunk.size) s1
      exact ⟨data, s2, h2, hs2⟩
    · rw [if_neg hsize]
      exact ⟨chunk.data, s1, rfl, by rw [hdata]; simp⟩
  obtain ⟨end2, s3, h3, hs3, -⟩ := readData_within 2 s2
  refine ⟨{ chunk with data := data }, s3, ?_, ?_⟩
  · rw [readChunk, run_bind_of_ok h1, run_bind_of_ok h2, run_bind_of_ok h3]
    rfl
  · simp only [Conn.Shrinks] at hs1 hs3 ⊢
    omega

/-- The loop of `read_chunked_payload` ends on every stream: each pass that is not the last one takes a byte. -/
theorem readChunkedPayloadLoop_run : ∀ (fuel : Nat) (payload : Bytes) (s : Conn), s.unread.length < fuel →
    ∃ r s', (readChunkedPayloadLoop fuel payload).run s = .ok (r, s') ∧ s.Shrinks s' := by
  intro fuel
  induction fuel with
  | zero => intro payload s h; omega
  | succ fuel ih =>
    intro payload s h
    obtain ⟨chunk, s1, h1, hs1⟩ := readChunk_run s
    rw [readChunkedPayloadLoop, run_bind_of_ok h1]
    by_cases hshort : chunk.data.length ≠ chunk.size
    · exact ⟨_, s1, by simp only [if_pos hshort]; rfl, by simp only [Conn.Shrinks]; omega⟩
    · by_cases hsize : chunk.size > 0
      · obtain ⟨r, s2, h2, hs2⟩ := ih (payload ++ chunk.data) s1 (by omega)
        refine ⟨r, s2, by simp only [if_neg hshort, if_pos hsize, h2], ?_⟩
        simp only [Conn.Shrinks] at hs2 ⊢
        omega
      · exact ⟨_, s1, by simp only [if_neg hshort, if_neg hsize]; rfl, by simp only [Conn.Shrinks]; omega⟩

/-- `read_chunked_payload` returns on every stream. -/
theorem readChunkedPayload_within (payload : Bytes) : Within Conn.Shrinks (readChunkedPayload payload) := by
  intro s
  obtain ⟨r, s', h1, h2⟩ := readChunkedPayloadLoop_run (s.unread.length + 1) payload s (Nat.lt_succ_self _)
  refine ⟨(decide (r.1.extention = bytes "ieof"), r.2), s', ?_, h2, trivial⟩
  show ((readChunkedPayloadLoop (s.unread.length + 1) payload) >>= _).run s = _
  rw [run_bind_of_ok h1]
  rfl

/-! ## The reader writes nothing -/

theorem readChunkHeader_writesNothing (chunk : Chunk) : Keeps Conn.WritesNothing (readChunkHeader chunk) := by
  unfold readChunkHeader
  refine Keeps.bind (readLine_writesNothing false) fun line => Keeps.bind (Keeps.lift _) fun header => ?_
  split
  · refine Keeps.bind (Keeps.lift _) fun field => Keeps.bind (R := Conn.WritesNothing) ?_ fun size => ?_
    · split
      · exact hextodec_writesNothing field
      · exact Keeps.pure _
    · split
      · exact Keeps.bind (Keeps.lift _) fun _ => Keeps.pure _
      · exact Keeps.pure _
  · exact Keeps.pure _

theorem readChunk_writesNothing : Keeps Conn.WritesNothing readChunk := by
  refine Keeps.bind (readChunkHeader_writesNothing _) fun chunk => Keeps.bind (R := Conn.WritesNothing) ?_ fun data => ?_
  · split
    · exact readData_writesNothing _
    · exact Keeps.pure _
  · exact Keeps.bind (readData_writesNothing _) fun _ => Keeps.pure _

theorem readChunkedPayloadLoop_writesNothing : ∀ (fuel : Nat) (payload : Bytes),
    Keeps Conn.WritesNothing (readChunkedPayloadLoop fuel payload)
  | 0, _ => Keeps.throw _
  | fuel + 1, payload => by
    rw [readChunkedPayloadLoop]
    refine Keeps.bind readChunk_writesNothing fun chunk => ?_
    dsimp only
    split
    · exact Keeps.pure _
    · split
      · exact readChunkedPayloadLoop_writesNothing fuel _
      · exact Keeps.pure _

/-- `read_chunked_payload` writes nothing. -/
theorem readChunkedPayload_writesNothing (payload : Bytes) : Keeps Conn.WritesNothing (readChunkedPayload payload) :=
  fun s => Keeps.bind (readChunkedPayloadLoop_writesNothing _ _) (fun _ => Keeps.pure _) s

/-! ## What the writer writes -/

/-- What `n` passes of the loop of `send_chunked` write from `offset` on. -/
def chunkPieces (data : Bytes) : Nat → Nat → Bytes
  | 0, _ => []
  | n + 1, offset =>
    let piece := (data.drop offset).take icapBufferSize
    dectohex piece.length ++ crlf ++ piece ++ chunkPieces data n (offset + piece.length)

/-- What `send_chunked` writes: the line end after the data stands once, behind the last piece. -/
def chunkedWire (data : Bytes) : Bytes :=
  chunkPieces data (max 1 (data.length / icapBufferSize)) 0 ++ (crlf ++ bytes "0" ++ crlf ++ crlf)

theorem sendLine_within (line : Bytes) : Within Conn.KeepsInput (sendLine line) := by
  refine Within.bind (write_within line) fun written => ?_
  split
  · exact write_within crlf
  · exact Within.pure _

theorem sendLine_run {s : Conn} (hg : s.good = true) (hf : s.faults = []) (line : Bytes) :
    (sendLine line).run s = .ok (true, { s with sent := s.sent ++ (line ++ crlf) }) := by
  have h := write_run hg hf line
  rw [sendLine, run_bind_of_ok h, if_pos rfl, write_run (by exact hg) (by exact hf), List.append_assoc]

theorem sendData_run {s : Conn} (hg : s.good = true) (hf : s.faults = []) (data : Bytes) :
    (sendData data).run s = .ok (true, { s with sent := s.sent ++ data }) := write_run hg hf data

/-- The loop of `send_chunked` returns and reads nothing: its offset stays in the data, and a pass counts `chunks` down. -/
theorem sendChunkedLoop_within (data : Bytes) : ∀ (fuel : Nat) (chunks : Int) (offset : Nat), chunks.toNat < fuel →
    offset ≤ data.length → Within Conn.KeepsInput (sendChunkedLoop data fuel chunks offset) := by
  intro fuel
  induction fuel with
  | zero => intro chunks offset h; omega
  | succ fuel ih =>
    intro chunks offset hfuel hoff
    have hsub : substr data offset (some icapBufferSize) = .ok ((data.drop offset).take icapBufferSize) := by
      rw [substr, if_pos hoff]
    rw [sendChunkedLoop]
    refine Returns.bind (Returns.lift (Q := fun piece => offset + piece.length ≤ data.length) hsub ?_) fun piece hpiece => ?_
    · rw [List.length_take, List.length_drop]
      omega
    · split
      · exact Within.pure _
      · refine Within.bind (sendLine_within _) fun sent => ?_
        split
        · refine Within.bind (write_within piece) fun sent => ?_
          split
          · split
            · refine ih _ _ (by omega) ?_
              exact Nat.le_trans (Nat.mod_le _ _) hpiece
            · exact Within.pure _
          · exact Within.pure _
        · exact Within.pure _

/-- `send_chunked` returns and reads nothing, whatever the data and whichever write fails. -/
theorem sendChunked_within (data : Bytes) : Within Conn.KeepsInput (sendChunked data) := by
  refine Within.bind (sendChunkedLoop_within data _ _ 0 (Nat.lt_succ_self _) (Nat.zero_le _)) fun sent => ?_
  split
  · exact write_within _
  · exact Within.pure _

/-- The piece of the data that a pass of the loop of `send_chunked` sends. -/
def chunkPiece (data : Bytes) (offset : Nat) : Bytes := (data.drop offset).take icapBufferSize

/-- A piece behind its size line. -/
def pieceWire (piece : Bytes) : Bytes := dectohex piece.length ++ crlf ++ piece

theorem chunkPieces_succ (data : Bytes) (n offset : Nat) : chunkPieces data (n + 1) offset =
    pieceWire (chunkPiece data offset) ++ chunkPieces data n (offset + (chunkPiece data offset).length) := rfl

/-- A pass inside the data writes its piece and goes on as `chunks` says. -/
theorem sendChunkedLoop_pass {data : Bytes} {offset : Nat} (hoff : offset < data.length) (fuel : Nat) (chunks : Int) {s : Conn}
    (hg : s.good = true) (hf : s.faults = []) : (sendChunkedLoop data (fuel + 1) chunks offset).run s =
      (if chunks - 1 > 0 then sendChunkedLoop data fuel (chunks - 1) (toUInt32 (offset + (chunkPiece data offset).length))
        else pure true : SockM Bool).run { s with sent := s.sent ++ pieceWire (chunkPiece data offset) } := by
  have hsub : (liftM (substr data offset (some icapBufferSize)) : SockM Bytes).run s = .ok (chunkPiece data offset, s) := by
    rw [substr, if_pos (by omega)]
    rfl
  have hlen : (chunkPiece data offset).length ≤ icapBufferSize := by
    rw [chunkPiece, List.length_take]
    exact Nat.min_le_left _ _
  have hpos : ¬(chunkPiece data offset).length ≤ 0 := by
    rw [chunkPiece, List.length_take, List.length_drop]
    simp only [icapBufferSize]
    omega
  have hu : toUInt32 (chunkPiece data offset).length = (chunkPiece data offset).length := by
    apply toUInt32_of_lt
    simp only [icapBufferSize] at hlen
    omega
  rw [sendChunkedLoop, run_bind_of_ok hsub, if_neg hpos, hu, run_bind_of_ok (sendLine_run hg hf _), if_pos rfl, sendData,
    run_bind_of_ok (write_run (by exact hg) (by exact hf) _), if_pos rfl, List.append_assoc s.sent]
  rfl

/-- A pass with at least one buffer of data before it sends a full piece. -/
theorem length_chunkPiece {data : Bytes} {offset : Nat} (h : offset + icapBufferSize ≤ data.length) :
    (chunkPiece data offset).length = icapBufferSize := by
  rw [chunkPiece, List.length_take, List.length_drop]
  omega

/-- The offset of a pass, an `unsigned int`. -/
def pieceOffset (i : Nat) : Nat := toUInt32 (icapBufferSize * i)

/-- The pieces of the passes from `i` on. -/
def piecesFrom (data : Bytes) (i n : Nat) : List Bytes := (List.range' i n).map (fun k => chunkPiece data (pieceOffset k))

/-- Below `2^31` bytes the offset of a pass behind full pieces is the number of bytes before it. -/
theorem chunkPieces_eq {data : Bytes} (hlt : data.length < 2 ^ 31) : ∀ (n i : Nat), icapBufferSize * (i + n) < data.length →
    chunkPieces data (n + 1) (icapBufferSize * i) = (piecesFrom data i (n + 1)).flatMap pieceWire := by
  have hoffset : ∀ i, icapBufferSize * i < data.length → pieceOffset i = icapBufferSize * i :=
    fun i hi => toUInt32_of_lt (by omega)
  intro n
  induction n with
  | zero =>
    intro i hoff
    rw [chunkPieces_succ, ← hoffset i hoff]
    simp [piecesFrom, chunkPieces]
  | succ n ih =>
    intro i hoff
    simp only [icapBufferSize] at hoff
    have hi : icapBufferSize * i + icapBufferSize ≤ data.length := by
      simp only [icapBufferSize]
      omega
    rw [chunkPieces_succ, length_chunkPiece hi, ← Nat.mul_succ, ih (i + 1) (by simp only [icapBufferSize]; omega),
      ← hoffset i (by simp only [icapBufferSize]; omega)]
    simp only [piecesFrom, List.range'_succ, List.map_cons, List.flatMap_cons]

/-- The passes of `send_chunked` write their pieces, also where the offset is no longer that of the pass; `n` passes follow the first
one. -/
theorem sendChunkedLoop_pieces {data : Bytes} : ∀ (n fuel i : Nat) (chunks : Int) (s : Conn), n < fuel →
    (chunks = n + 1 ∨ n = 0 ∧ chunks ≤ 1) → icapBufferSize * (i + n) < data.length → s.good = true → s.faults = [] →
    (sendChunkedLoop data fuel chunks (pieceOffset i)).run s =
      .ok (true, { s with sent := s.sent ++ (piecesFrom data i (n + 1)).flatMap pieceWire }) := by
  have hle : ∀ i, pieceOffset i ≤ icapBufferSize * i := fun i => Nat.mod_le _ _
  intro n
  induction n with
  | zero =>
    rintro (_ | fuel) i chunks s hfuel hchunks hoff hg hf
    · omega
    rw [sendChunkedLoop_pass (Nat.lt_of_le_of_lt (hle i) hoff) fuel chunks hg hf, if_neg (by omega)]
    simp [piecesFrom]
    rfl
  | succ n ih =>
    rintro (_ | fuel) i chunks s hfuel hchunks hoff hg hf
    · omega
    have hi := hle i
    simp only [icapBufferSize] at hi hoff
    have hlen : (chunkPiece data (pieceOffset i)).length = icapBufferSize :=
      length_chunkPiece (by simp only [icapBufferSize]; omega)
    have hnext : toUInt32 (pieceOffset i + icapBufferSize) = pieceOffset (i + 1) := by
      simp only [pieceOffset, toUInt32, icapBufferSize]
      omega
    rw [sendChunkedLoop_pass (by omega) fuel chunks hg hf, if_pos (by omega), hlen, hnext,
      ih fuel (i + 1) (chunks - 1) _ (by omega) (by omega) (by simp only [icapBufferSize]; omega) (by exact hg) (by exact hf)]
    simp only [piecesFrom, List.range'_succ, List.map_cons, List.flatMap_cons, List.append_assoc]

/-- The number of passes of `send_chunked`: the quotient is narrowed to an `int`. -/
def chunkPasses (data : Bytes) : Nat := max 1 (toInt32 (data.length / icapBufferSize : Nat)).toNat

/-- There are no more passes than buffers of data, but at least one. -/
theorem chunkPasses_le (data : Bytes) : chunkPasses data ≤ max 1 (data.length / icapBufferSize) := by
  have hle := toInt32_le (data.length / icapBufferSize)
  unfold chunkPasses
  generalize data.length / icapBufferSize = chunks at hle ⊢
  omega

/-- On a good stream whose writes do not fail `send_chunked` writes its pieces and the end of the body. -/
theorem sendChunked_pieces {data : Bytes} (hne : data ≠ []) {s : Conn} (hg : s.good = true) (hf : s.faults = []) :
    (sendChunked data).run s = .ok (true, { s with
      sent := s.sent ++ ((piecesFrom data 0 (chunkPasses data)).flatMap pieceWire ++ (crlf ++ bytes "0" ++ crlf ++ crlf)) }) := by
  have hpos : 0 < data.length := List.length_pos_iff.mpr hne
  have hpasses := chunkPasses_le data
  obtain ⟨n, hn⟩ : ∃ n, chunkPasses data = n + 1 := ⟨chunkPasses data - 1, by simp only [chunkPasses]; omega⟩
  have hchunks : ∃ chunks : Int, (if data.length > icapBufferSize then toInt32 (data.length / icapBufferSize : Nat) else 0) = chunks ∧
      n < chunks.toNat + 1 ∧ (chunks = n + 1 ∨ n = 0 ∧ chunks ≤ 1) := by
    by_cases hbig : data.length > icapBufferSize
    · refine ⟨_, if_pos hbig, ?_⟩
      simp only [chunkPasses] at hn
      omega
    · refine ⟨0, if_neg hbig, ?_⟩
      simp only [icapBufferSize] at hbig hpasses
      omega
  obtain ⟨chunks, hc, hfuel, hcase⟩ := hchunks
  have hoff : icapBufferSize * (0 + n) < data.length := by
    simp only [icapBufferSize] at hpasses ⊢
    omega
  have hloop := sendChunkedLoop_pieces n _ 0 chunks s hfuel hcase hoff hg hf
  have hzero : pieceOffset 0 = 0 := rfl
  rw [hzero] at hloop
  rw [sendChunked, hc, run_bind_of_ok hloop, if_pos rfl, sendData, write_run (by exact hg) (by exact hf), hn, List.append_assoc s.sent]

/-- The quotient is not narrowed below `2^31` bytes. -/
theorem chunkPasses_of_lt {data : Bytes} (hlt : data.length < 2 ^ 31) :
    chunkPasses data = max 1 (data.length / icapBufferSize) := by
  have hle := Nat.div_le_self data.length icapBufferSize
  rw [chunkPasses, toInt32_of_lt (by omega)]
  rfl

/-- On a good stream whose writes do not fail `send_chunked` writes the chunked form. -/
theorem sendChunked_run {data : Bytes} (hne : data ≠ []) (hlt : data.length < 2 ^ 31) {s : Conn} (hg : s.good = true)
    (hf : s.faults = []) : (sendChunked data).run s = .ok (true, { s with sent := s.sent ++ chunkedWire data }) := by
  have hpos : 0 < data.length := List.length_pos_iff.mpr hne
  obtain ⟨n, hn⟩ : ∃ n, max 1 (data.length / icapBufferSize) = n + 1 := ⟨max 1 (data.length / icapBufferSize) - 1, by omega⟩
  have hoff : icapBufferSize * (0 + n) < data.length := by
    simp only [icapBufferSize] at hn ⊢
    omega
  have hpieces : chunkPieces data (n + 1) 0 = (piecesFrom data 0 (n + 1)).flatMap pieceWire := chunkPieces_eq hlt n 0 hoff
  rw [sendChunked_pieces hne hg hf, chunkPasses_of_lt hlt, chunkedWire, hn, hpieces]

end BitzServer
