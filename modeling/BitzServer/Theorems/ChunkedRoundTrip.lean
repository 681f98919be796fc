import BitzServer.Icap.ChunkedBody

/-!
# Sending and reading a chunked payload

What `send_chunked` writes, read with `read_chunked_payload`. The writer cuts the data in pieces of `ICAP_BUFFER_SIZE` bytes, but
counts one piece too few and puts the line end only behind the last one, so the reader gets the first piece and no more.
-/

namespace BitzServer

open Feed

/-- Any stream that starts with what `send_chunked` writes for the data is read to the data, and no further. -/
def RoundTrip (data : Bytes) : Prop :=
  ∃ wire : Bytes,
    (∀ out : Conn, out.good = true → out.faults = [] →
      (sendChunked data).run out = .ok (true, { out with sent := out.sent ++ wire })) ∧
    ∀ (inp : Conn) (rest : Bytes), inp.good = true → inp.unread = wire ++ rest →
      (readChunkedPayload []).run inp = .ok ((false, data), { inp with unread := rest })

namespace RoundTripAux

theorem text_ofNat (n : Nat) : (SizeLine.ofNat n).text = dectohex n := List.append_nil _

/-- The reader of a payload takes one chunk, two bytes, a zero chunk and two bytes, whatever the bytes are. -/
theorem readChunkedPayload_two {data : Bytes} (hne : data ≠ []) (hlt : data.length < 2 ^ 31) (x y x' y' : Byte) :
    Consumes (readChunkedPayload [])
      (dectohex data.length ++ crlf ++ (data ++ [x, y]) ++ (dectohex 0 ++ crlf ++ [x', y'])) (false, data) := by
  have h1 := readChunk_consumes (SizeLine.ofNat data.length) data (hexValue_dectohex _) hlt x y
  have h2 := readChunk_consumes (SizeLine.ofNat 0) [] (hexValue_dectohex _) (by decide) x' y'
  rw [text_ofNat] at h1 h2
  have hpos : data.length > 0 := List.length_pos_iff.mpr hne
  refine readChunkedPayload_of_loop (r := ({ size := 0, extention := [], data := [] }, data)) ?_
  rintro (_ | _ | fuel) hfuel
  · omega
  · simp only [List.length_append, List.length_cons] at hfuel
    omega
  rw [readChunkedPayloadLoop]
  refine h1.bind ?_
  simp only [ne_eq, not_true_eq_false, if_false, hpos, if_true]
  rw [readChunkedPayloadLoop]
  refine (h2.bind ?_).cast (List.append_nil _)
  simp only [List.nil_append, List.append_nil]
  exact Consumes.pure _

/-- What `send_chunked` writes for one buffer of data or less. -/
theorem chunkedWire_short {data : Bytes} (hshort : data.length ≤ icapBufferSize) :
    chunkedWire data = dectohex data.length ++ crlf ++ (data ++ [cr, lf]) ++ (dectohex 0 ++ crlf ++ [cr, lf]) := by
  have hone : max 1 (data.length / icapBufferSize) = 1 := by
    simp only [icapBufferSize] at hshort ⊢
    omega
  have hzero : bytes "0" = dectohex 0 := by decide
  rw [chunkedWire, hone, chunkPieces, chunkPieces, List.drop_zero, List.take_of_length_le hshort, hzero]
  simp [crlf]

/-- What `send_chunked` writes for more than one buffer of data starts with the first buffer, followed by what can be read as a
zero chunk: the end of the body, or the next size line less the two bytes that are taken for a line end. -/
theorem chunkedWire_long {data : Bytes} (hlong : icapBufferSize < data.length) : ∃ (x y x' y' : Byte) (tail : Bytes),
    chunkedWire data = dectohex icapBufferSize ++ crlf ++ (data.take icapBufferSize ++ [x, y]) ++
      (dectohex 0 ++ crlf ++ [x', y']) ++ tail := by
  have hlen : (data.take icapBufferSize).length = icapBufferSize := by
    rw [List.length_take]
    omega
  have hzero : bytes "0" = dectohex 0 := by decide
  have hsize : dectohex icapBufferSize = [52, 48] ++ dectohex 0 := by decide
  by_cases hone : data.length / icapBufferSize = 1
  · refine ⟨cr, lf, cr, lf, [], ?_⟩
    rw [chunkedWire, hone, max_self, chunkPieces, chunkPieces, List.drop_zero, hlen, hzero]
    simp [crlf]
  · obtain ⟨n, hn⟩ : ∃ n, max 1 (data.length / icapBufferSize) = n + 2 := by
      refine ⟨max 1 (data.length / icapBufferSize) - 2, ?_⟩
      simp only [icapBufferSize] at hlong hone ⊢
      omega
    have hlen2 : ((data.drop icapBufferSize).take icapBufferSize).length = icapBufferSize := by
      rw [List.length_take, List.length_drop]
      simp only [icapBufferSize] at hn ⊢
      omega
    obtain ⟨x', y', l, hl⟩ : ∃ x' y' l, (data.drop icapBufferSize).take icapBufferSize = x' :: y' :: l := by
      rcases h : (data.drop icapBufferSize).take icapBufferSize with _ | ⟨x', _ | ⟨y', l⟩⟩
      · rw [h, icapBufferSize] at hlen2
        simp at hlen2
      · rw [h, icapBufferSize] at hlen2
        simp at hlen2
      · exact ⟨x', y', l, rfl⟩
    refine ⟨52, 48, x', y', l ++ chunkPieces data n (0 + icapBufferSize + icapBufferSize) ++ (crlf ++ bytes "0" ++ crlf ++ crlf), ?_⟩
    rw [chunkedWire, hn, chunkPieces, chunkPieces, List.drop_zero, hlen, Nat.zero_add, hlen2, hl]
    conv_lhs => rw [hsize]
    conv_rhs => rw [hsize]
    simp [crlf]

/-- More than one buffer of data is read as the first buffer. -/
theorem readChunkedPayload_long {data : Bytes} (hlong : icapBufferSize < data.length) : ∃ first tail : Bytes,
    chunkedWire data = first ++ tail ∧ Consumes (readChunkedPayload []) first (false, data.take icapBufferSize) := by
  have hlen : (data.take icapBufferSize).length = icapBufferSize := by
    rw [List.length_take]
    omega
  have hne : data.take icapBufferSize ≠ [] := by
    intro h
    rw [h] at hlen
    exact absurd hlen (by decide)
  have hread := readChunkedPayload_two hne (by rw [hlen]; decide)
  rw [hlen] at hread
  obtain ⟨x, y, x', y', tail, hwire⟩ := chunkedWire_long hlong
  exact ⟨_, tail, hwire, hread x y x' y'⟩

/-- More than one buffer of data does not come back. -/
theorem not_roundTrip_of_long {data : Bytes} (hlong : icapBufferSize < data.length) (hlt : data.length < 2 ^ 31) :
    ¬RoundTrip data := by
  rintro ⟨wire, hsend, hrecv⟩
  have hne : data ≠ [] := by
    rintro rfl
    exact absurd hlong (by decide)
  let out := Conn.ofInput []
  have hwire : wire = chunkedWire data := by
    have h := (hsend out rfl rfl).symm.trans (sendChunked_run hne hlt (s := out) rfl rfl)
    injection h with h
    exact congrArg (fun r => r.2.sent) h
  subst hwire
  obtain ⟨first, tail, hsplit, hread⟩ := readChunkedPayload_long hlong
  let inp := Conn.ofInput (chunkedWire data)
  have h1 := hrecv inp [] rfl (List.append_nil _).symm
  have h2 := hread inp tail rfl hsplit
  have h3 := h1.symm.trans h2
  injection h3 with h3
  have hdata : data = data.take icapBufferSize := congrArg (fun r => r.1.2) h3
  have hlen := congrArg List.length hdata
  rw [List.length_take] at hlen
  omega

end RoundTripAux

open RoundTripAux

/-- `read_chunked_payload` undoes `send_chunked` exactly on the data that fit one buffer. -/
theorem roundTrip_iff {data : Bytes} (hne : data ≠ []) (hlt : data.length < 2 ^ 31) :
    RoundTrip data ↔ data.length ≤ icapBufferSize := by
  constructor
  · intro h
    by_contra hlong
    exact not_roundTrip_of_long (not_le.mp hlong) hlt h
  · intro hshort
    refine ⟨chunkedWire data, fun out hg hf => sendChunked_run hne hlt hg hf, fun inp rest hg hu => ?_⟩
    rw [chunkedWire_short hshort] at hu
    exact readChunkedPayload_two hne hlt cr lf cr lf inp rest hg hu

/-- Three bytes fit one buffer, so they come back. -/
theorem roundTrip_abc : RoundTrip (bytes "abc") := by
  have hne : bytes "abc" ≠ [] := by decide
  exact (roundTrip_iff hne (by decide)).mpr (by decide)

/-- A body of one byte more than the buffer does not come back. -/
theorem roundTrip_false : ¬∀ data : Bytes, data ≠ [] → data.length < 2 ^ 31 → RoundTrip data := by
  intro h
  have hlen : (List.replicate (icapBufferSize + 1) (65 : Byte)).length = icapBufferSize + 1 := List.length_replicate
  have hlt : (List.replicate (icapBufferSize + 1) (65 : Byte)).length < 2 ^ 31 := by
    rw [hlen, icapBufferSize]
    omega
  refine not_roundTrip_of_long (by rw [hlen]; exact Nat.lt_succ_self _) hlt (h _ ?_ hlt)
  simp

end BitzServer
