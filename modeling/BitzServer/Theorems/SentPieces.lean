import BitzServer.Icap.Chunked

/-!
# The pieces that are sent

`send_chunked` counts its passes by a division with rounding, narrowed to an `int`, and walks through the data with an `unsigned int`.
What it leaves out, and what it sends a second time in the place of other data.
-/

namespace BitzServer

/-- What is sent behind the last piece. -/
def bodyEnd : Bytes := crlf ++ bytes "0" ++ crlf ++ crlf

/-- `send_chunked` sends pieces, each behind a size line with its length, that are the data when put together. -/
def SendsAll (data : Bytes) : Prop :=
  ∃ pieces : List Bytes, pieces.flatten = data ∧ ∀ s : Conn, s.good = true → s.faults = [] →
    (sendChunked data).run s = .ok (true, { s with sent := s.sent ++ (pieces.flatMap pieceWire ++ bodyEnd) })

/-- The data fit one buffer; or they fill a number of buffers that is an `int`, and what lies behind 4 GiB repeats what is before. -/
def FillsBuffers (data : Bytes) : Prop :=
  data.length ≤ icapBufferSize ∨ icapBufferSize ∣ data.length ∧ data.length / icapBufferSize < 2 ^ 31 ∧
    ∀ i < data.length, data[i]? = data[i % 2 ^ 32]?

namespace SentPiecesAux

/-- The size line of a piece can be read back. -/
theorem pieceWire_inj {p q t u : Bytes} (h : pieceWire p ++ t = pieceWire q ++ u) : p = q ∧ t = u := by
  have hdigits : ∀ (p t : Bytes), (pieceWire p ++ t).takeWhile isHexDigit = dectohex p.length := by
    intro p t
    have hcr : isHexDigit cr = false := by decide
    rw [pieceWire, List.append_assoc, List.append_assoc, List.takeWhile_append_of_pos (dectohex_digits p.length).2, crlf,
      List.cons_append, List.takeWhile_cons_of_neg (by simp [hcr]), List.append_nil]
  have hlen : p.length = q.length := by
    have hsize := congrArg (fun l : Bytes => hexValue (l.takeWhile isHexDigit)) h
    simpa only [hdigits, hexValue_dectohex] using hsize
  rw [pieceWire, pieceWire, hlen, List.append_assoc _ p, List.append_assoc _ q] at h
  exact List.append_inj (List.append_cancel_left h) hlen

/-- The end of a body is not the start of a piece. -/
theorem bodyEnd_ne (p t : Bytes) : bodyEnd ≠ pieceWire p ++ t := by
  intro h
  obtain ⟨c, digits, hdigits⟩ := List.exists_cons_of_ne_nil (dectohex_digits p.length).1
  have hc : isHexDigit c = true := (dectohex_digits p.length).2 c (by rw [hdigits]; exact List.mem_cons_self)
  rw [pieceWire, hdigits] at h
  have hcr : cr = c := (List.cons.inj h).1
  subst hcr
  exact absurd hc (by decide)

/-- What is sent says what the pieces are. -/
theorem pieces_inj : ∀ {ps qs : List Bytes}, ps.flatMap pieceWire ++ bodyEnd = qs.flatMap pieceWire ++ bodyEnd → ps = qs
  | [], [], _ => rfl
  | [], q :: qs, h => by
    rw [List.flatMap_nil, List.nil_append, List.flatMap_cons, List.append_assoc] at h
    exact absurd h (bodyEnd_ne q _)
  | p :: ps, [], h => by
    rw [List.flatMap_nil, List.nil_append, List.flatMap_cons, List.append_assoc] at h
    exact absurd h.symm (bodyEnd_ne p _)
  | p :: ps, q :: qs, h => by
    rw [List.flatMap_cons, List.flatMap_cons, List.append_assoc, List.append_assoc] at h
    obtain ⟨rfl, htail⟩ := pieceWire_inj h
    rw [pieces_inj htail]

/-- The data are sent if and only if the pieces of the passes are the data. -/
theorem sendsAll_iff_flatten {data : Bytes} (hne : data ≠ []) :
    SendsAll data ↔ (piecesFrom data 0 (chunkPasses data)).flatten = data := by
  constructor
  · rintro ⟨pieces, hdata, hsend⟩
    have hrun := (hsend (Conn.ofInput []) rfl rfl).symm.trans (sendChunked_pieces hne rfl rfl)
    have hsent : [] ++ (pieces.flatMap pieceWire ++ bodyEnd) = [] ++ ((piecesFrom data 0 (chunkPasses data)).flatMap pieceWire ++ bodyEnd) :=
      congrArg (fun r => r.2.sent) (Except.ok.inj hrun)
    rw [List.nil_append, List.nil_append] at hsent
    rw [← pieces_inj hsent]
    exact hdata
  · exact fun hdata => ⟨_, hdata, fun s hg hf => sendChunked_pieces hne hg hf⟩

/-- `n` full pieces: position `j` of what they send is position `j` of the data, modulo the range of the offset. -/
theorem flatten_pieces {data : Bytes} : ∀ {n : Nat}, icapBufferSize * n ≤ data.length →
    (piecesFrom data 0 n).flatten.length = icapBufferSize * n ∧
      ∀ j < icapBufferSize * n, (piecesFrom data 0 n).flatten[j]? = data[j % 2 ^ 32]? := by
  intro n
  induction n with
  | zero => exact fun _ => ⟨rfl, fun j hj => absurd hj (Nat.not_lt_zero j)⟩
  | succ n ih =>
    intro hn
    rw [Nat.mul_succ] at hn ⊢
    obtain ⟨hlen, hget⟩ := ih (by omega)
    have hle : pieceOffset n ≤ icapBufferSize * n := Nat.mod_le _ _
    have hpiece : (chunkPiece data (pieceOffset n)).length = icapBufferSize := length_chunkPiece (by omega)
    have hsplit : (piecesFrom data 0 (n + 1)).flatten = (piecesFrom data 0 n).flatten ++ chunkPiece data (pieceOffset n) := by
      simp [piecesFrom, List.range'_concat]
    refine ⟨by rw [hsplit, List.length_append, hlen, hpiece], fun j hj => ?_⟩
    rw [hsplit]
    by_cases hlow : j < icapBufferSize * n
    · rw [List.getElem?_append_left (by rw [hlen]; exact hlow)]
      exact hget j hlow
    · have hpos : pieceOffset n + (j - icapBufferSize * n) = j % 2 ^ 32 := by
        simp only [pieceOffset, toUInt32, icapBufferSize] at hlow hj ⊢
        omega
      rw [List.getElem?_append_right (by rw [hlen]; exact Nat.not_lt.mp hlow), hlen, chunkPiece,
        List.getElem?_take_of_lt (by omega), List.getElem?_drop, hpos]

/-- Data that fit one buffer are one piece. -/
theorem flatten_short {data : Bytes} (h : data.length ≤ icapBufferSize) : (piecesFrom data 0 (chunkPasses data)).flatten = data := by
  have hle := chunkPasses_le data
  have hone : chunkPasses data = 1 := by
    simp only [chunkPasses, icapBufferSize] at h hle ⊢
    omega
  have hpieces : (piecesFrom data 0 1).flatten = data.take icapBufferSize := List.append_nil _
  rw [hone, hpieces, List.take_of_length_le h]

/-- More data are sent in full if the passes are as many as the buffers and the offset stays that of the pass, in effect. -/
theorem flatten_long {data : Bytes} (h : icapBufferSize < data.length) : (piecesFrom data 0 (chunkPasses data)).flatten = data ↔
    icapBufferSize ∣ data.length ∧ data.length / icapBufferSize < 2 ^ 31 ∧ ∀ i < data.length, data[i]? = data[i % 2 ^ 32]? := by
  have hle := chunkPasses_le data
  have hlt := toInt32_lt (data.length / icapBufferSize : Nat)
  have hfull : icapBufferSize * chunkPasses data ≤ data.length := by
    simp only [icapBufferSize] at h hle ⊢
    omega
  obtain ⟨hlen, hget⟩ := flatten_pieces hfull
  constructor
  · intro hdata
    rw [hdata] at hlen hget
    have hpasses : data.length / icapBufferSize = chunkPasses data := by
      rw [hlen]
      exact Nat.mul_div_cancel_left _ (by decide)
    refine ⟨⟨_, hlen⟩, ?_, fun i hi => hget i (hlen ▸ hi)⟩
    rw [hpasses]
    simp only [chunkPasses] at hpasses ⊢
    omega
  · rintro ⟨hdvd, hint, hrepeat⟩
    have hpasses : icapBufferSize * chunkPasses data = data.length := by
      rw [chunkPasses, toInt32_of_lt hint, Int.toNat_natCast, Nat.max_eq_right, Nat.mul_div_cancel' hdvd]
      exact Nat.div_pos h.le (by decide)
    rw [hpasses] at hlen hget
    refine List.ext_getElem? fun i => ?_
    rcases Nat.lt_or_ge i data.length with hi | hi
    · rw [hget i hi, hrepeat i hi]
    · rw [List.getElem?_eq_none hi, List.getElem?_eq_none (by rw [hlen]; exact hi)]

/-- Of no data, only the end is sent. -/
theorem sendsAll_nil : SendsAll [] := by
  refine ⟨[], rfl, fun s hg hf => ?_⟩
  have hloop : (sendChunkedLoop [] (Int.toNat 0 + 1) 0 0).run s = .ok (true, s) := rfl
  rw [sendChunked, if_neg (by decide), Feed.run_bind_of_ok hloop, if_pos rfl, sendData, write_run hg hf]
  rfl

end SentPiecesAux

open SentPiecesAux

/-- `send_chunked` sends all data exactly if they fit one buffer or fill whole buffers. -/
theorem sendsAll_iff (data : Bytes) : SendsAll data ↔ FillsBuffers data := by
  by_cases hne : data = []
  · subst hne
    exact iff_of_true sendsAll_nil (.inl (Nat.zero_le _))
  · rw [sendsAll_iff_flatten hne]
    rcases Nat.lt_or_ge icapBufferSize data.length with hlong | hshort
    · exact (flatten_long hlong).trans (or_iff_right (not_le.mpr hlong)).symm
    · exact iff_of_true (flatten_short hshort) (.inl hshort)

/-- One byte more than a buffer is not sent. -/
theorem sendsAll_false : ¬∀ data : Bytes, SendsAll data := by
  intro h
  have hlen : (List.replicate (icapBufferSize + 1) (65 : Byte)).length = icapBufferSize + 1 := List.length_replicate
  have hfills := (sendsAll_iff_flatten (by simp)).mp (h (List.replicate (icapBufferSize + 1) (65 : Byte)))
  obtain ⟨hdvd, -⟩ := (flatten_long (by rw [hlen]; exact Nat.lt_succ_self _)).mp hfills
  rw [hlen] at hdvd
  exact absurd hdvd (by decide)

end BitzServer
