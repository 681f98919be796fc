import BitzServer.Icap.Chunked

/-!
# Well-formed chunked bodies

The grammar of a chunked body, and what `read_chunked_payload` takes of one: the chunks up to the zero chunk and two bytes after
it, or, where a chunk does not fit an `int`, its size line and two bytes.
-/

namespace BitzServer

open Feed

/-! ## The grammar -/

/-- A size line: hexadecimal digits, and after a `;` an extension. -/
structure SizeLine where
  digits : Bytes
  extension : Option Bytes
  digits_ne : digits ≠ []
  digits_hex : ∀ c ∈ digits, isHexDigit c = true
  extension_text : ∀ e ∈ extension, ∀ c ∈ e, isText c = true

namespace SizeLine

def value (l : SizeLine) : Nat := hexValue l.digits

def text (l : SizeLine) : Bytes :=
  l.digits ++ match l.extension with
    | some e => bytes ";" ++ e
    | none => []

/-- The extension is `ieof`, up to blanks around it. -/
def ieof (l : SizeLine) : Bool := l.extension.map trim == some (bytes "ieof")

/-- A number alone, as `dectohex` prints it. -/
def ofNat (n : Nat) : SizeLine where
  digits := dectohex n
  extension := none
  digits_ne := (dectohex_digits n).1
  digits_hex := (dectohex_digits n).2
  extension_text := nofun

end SizeLine

/-- A chunk with data. -/
structure DataChunk where
  line : SizeLine
  data : Bytes
  data_ne : data ≠ []
  value_eq : line.value = data.length

def DataChunk.wire (c : DataChunk) : Bytes := c.line.text ++ crlf ++ c.data ++ crlf

/-- The size fits an `int`. -/
def DataChunk.Small (c : DataChunk) : Prop := c.data.length < 2 ^ 31

instance (c : DataChunk) : Decidable c.Small := inferInstanceAs (Decidable (_ < _))

/-- A chunked body: chunks with data, the zero chunk, trailer lines. -/
structure ChunkedBody where
  chunks : List DataChunk
  last : SizeLine
  trailers : List Bytes
  last_zero : last.value = 0
  trailers_line : ∀ t ∈ trailers, t ≠ [] ∧ ∀ c ∈ t, isText c = true

namespace ChunkedBody

def trailerWire (B : ChunkedBody) : Bytes := B.trailers.flatMap (· ++ crlf)

/-- The zero chunk, the trailers and the empty line. -/
def ending (B : ChunkedBody) : Bytes := B.last.text ++ crlf ++ (B.trailerWire ++ crlf)

def wire (B : ChunkedBody) : Bytes := B.chunks.flatMap DataChunk.wire ++ B.ending

/-- The data of the chunks. -/
def content (B : ChunkedBody) : Bytes := B.chunks.flatMap DataChunk.data

/-- The data as one chunk, or none. -/
def ofData (data : Bytes) : ChunkedBody where
  chunks := if h : data = [] then [] else [⟨SizeLine.ofNat data.length, data, h, hexValue_dectohex _⟩]
  last := SizeLine.ofNat 0
  trailers := []
  last_zero := hexValue_dectohex 0
  trailers_line := nofun

/-- Every size fits an `int`. -/
def Small (B : ChunkedBody) : Prop := ∀ c ∈ B.chunks, c.Small

instance (B : ChunkedBody) : Decidable B.Small := inferInstanceAs (Decidable (∀ c ∈ B.chunks, c.Small))

/-- What the chunk reader leaves of the chunks and of what follows them. -/
def leftoverFrom (B : ChunkedBody) : List DataChunk → Bytes
  | [] => (B.trailerWire ++ crlf).drop 2
  | c :: cs => if c.Small then B.leftoverFrom cs else (c.data ++ crlf).drop 2 ++ (cs.flatMap DataChunk.wire ++ B.ending)

/-- What the chunk reader leaves of the body. -/
def leftover (B : ChunkedBody) : Bytes := B.leftoverFrom B.chunks

end ChunkedBody

/-! ## Reading a size line -/

/-- What `read_chunk_header` takes for the extension: it wants exactly two fields. -/
def SizeLine.extention (l : SizeLine) : Bytes :=
  match l.extension with
  | some e => if 59 ∈ e then [] else trim e
  | none => []

namespace ChunkAux

/-- A separator is no blank: trimming keeps it. -/
theorem mem_trim {c : Byte} (hc : isSpace c = false) {e : Bytes} (h : c ∈ e) : c ∈ trim e := by
  have key : ∀ l : Bytes, c ∈ l → c ∈ l.dropWhile isSpace := by
    intro l hl
    rw [← List.takeWhile_append_dropWhile (p := isSpace) (l := l)] at hl
    rcases List.mem_append.mp hl with hl | hl
    · exact absurd (List.mem_takeWhile_imp hl) (by simp [hc])
    · exact hl
  rw [trim, ltrim, rtrim, List.rdropWhile]
  exact key _ (List.mem_reverse.mpr (key _ (List.mem_reverse.mpr h)))

/-- The fields of a size line: the digits, and what the extension is cut into. -/
theorem splitOnP_text (l : SizeLine) : l.text.splitOnP (fun c => (bytes ";").contains c) =
    l.digits :: (match l.extension with | some e => e.splitOnP (fun c => (bytes ";").contains c) | none => []) := by
  have hd : ∀ c ∈ l.digits, (bytes ";").contains c = false := by
    intro c hc
    obtain ⟨-, -, -, -, -, h⟩ := isHexDigit_ne c (l.digits_hex c hc)
    have hb : bytes ";" = [59] := rfl
    simp [hb, h]
  unfold SizeLine.text
  cases l.extension with
  | none => rw [List.append_nil, List.splitOnP_eq_singleton hd]
  | some e => exact List.splitOnP_append_cons_of_forall_mem hd 59 (by decide) e

/-- A size line has no line end in it. -/
theorem isText_text (l : SizeLine) : ∀ c ∈ l.text, isText c = true := by
  intro c hc
  unfold SizeLine.text at hc
  rcases List.mem_append.mp hc with hc | hc
  · exact isText_of_isHexDigit c (l.digits_hex c hc)
  · cases he : l.extension with
    | none => simp [he] at hc
    | some e =>
      rw [he] at hc
      rcases List.mem_append.mp hc with hc | hc
      · have hb : bytes ";" = [59] := rfl
        rw [hb, List.mem_singleton] at hc
        subst hc
        decide
      · exact l.extension_text e he c hc

end ChunkAux

open ChunkAux

/-- The code's test of the extension finds `ieof` exactly where the size line carries it. -/
theorem SizeLine.extention_eq_ieof (l : SizeLine) : decide (l.extention = bytes "ieof") = l.ieof := by
  unfold SizeLine.extention SizeLine.ieof
  cases l.extension with
  | none => decide
  | some e =>
    by_cases h : 59 ∈ e
    · have hmem : 59 ∈ trim e := mem_trim (by decide) h
      have hne : trim e ≠ bytes "ieof" := by
        intro heq
        rw [heq] at hmem
        exact absurd hmem (by decide)
      have hnil : ¬([] : Bytes) = bytes "ieof" := by decide
      simp [h, hne, hnil]
    · simp [h, beq_eq_decide]

/-- `read_chunk_header` reads a size line: the size saturates at the greatest `unsigned int`. -/
theorem readChunkHeader_consumes (l : SizeLine) (data : Bytes) :
    Consumes (readChunkHeader { size := 0, extention := [], data := data }) (l.text ++ crlf)
      { size := min l.value (2 ^ 32 - 1), extention := l.extention, data := data } := by
  have hline := readLine_consumes false (isText_text l)
  have hsplit := split_eq l.text (bytes ";")
  rw [splitOnP_text] at hsplit
  have hpos : l.digits.length > 0 := List.length_pos_iff.mpr l.digits_ne
  rw [if_neg (by decide), List.append_nil] at hline
  unfold readChunkHeader
  refine (hline.bind ((Consumes.lift hsplit).bind ?_)).cast (List.append_nil _)
  rw [if_pos (by simp)]
  refine (Consumes.lift rfl).bind (u := []) (v := []) (a := l.digits) ?_
  rw [if_pos hpos, hextodec_digits l.digits_ne l.digits_hex]
  refine (Consumes.pure _).bind (u := []) (v := []) ?_
  unfold SizeLine.extention SizeLine.value
  cases he : l.extension with
  | none => exact Consumes.pure _
  | some e =>
    by_cases h : 59 ∈ e
    · have h2 := Fields.two_le_length_splitOnP (p := fun c => (bytes ";").contains c) (by decide) h
      rw [if_neg (by simp only [List.length_cons]; omega)]
      simp only [h, if_true]
      exact Consumes.pure _
    · have h2 : e.splitOnP (fun c => (bytes ";").contains c) = [e] :=
        List.splitOnP_eq_singleton (by
          intro c hc
          have hb : bytes ";" = [59] := rfl
          have hne : c ≠ 59 := fun heq => h (heq ▸ hc)
          simp [hb, hne])
      simp only [h2, List.length_cons, List.length_nil, if_true, h, if_false]
      exact (Consumes.lift rfl).bind (u := []) (v := []) (a := e) (Consumes.pure _)

/-! ## Reading a chunk -/

/-- `read_chunk` takes a chunk whose size fits an `int`, and the two bytes after its data, whatever they are. -/
theorem readChunk_consumes (l : SizeLine) (data : Bytes) (hv : l.value = data.length) (hlt : data.length < 2 ^ 31) (x y : Byte) :
    Consumes readChunk (l.text ++ crlf ++ (data ++ [x, y])) { size := data.length, extention := l.extention, data := data } := by
  have hmin : min l.value (2 ^ 32 - 1) = data.length := by omega
  have hhead := readChunkHeader_consumes l []
  rw [hmin] at hhead
  unfold readChunk
  refine hhead.bind ?_
  have hdata : Consumes (if data.length > 0 then readData (toInt32 data.length) else pure [] : SockM Bytes) data data := by
    by_cases hpos : data.length > 0
    · rw [if_pos hpos, toInt32_of_lt hlt]
      exact readData_consumes data
    · have hnil : data = [] := List.eq_nil_of_length_eq_zero (by omega)
      subst hnil
      exact Consumes.pure []
  exact hdata.bind ((readData_consumes [x, y]).map _)

/-- `read_chunk` takes of a chunk whose size does not fit an `int` the size line and two bytes. -/
theorem readChunk_consumes_big (l : SizeLine) (hv : 2 ^ 31 ≤ l.value) (x y : Byte) :
    ∃ chunk : Chunk, chunk.data.length ≠ chunk.size ∧ Consumes readChunk (l.text ++ crlf ++ [x, y]) chunk := by
  have hneg : toInt32 (min l.value (2 ^ 32 - 1) : Nat) ≤ 0 := by
    unfold toInt32
    rw [Int.bmod_def]
    omega
  refine ⟨{ size := min l.value (2 ^ 32 - 1), extention := l.extention, data := [] }, ?_, ?_⟩
  · simp only [List.length_nil]
    omega
  · unfold readChunk
    refine (readChunkHeader_consumes l []).bind ?_
    rw [readData_of_nonpos hneg, ite_self]
    exact (Consumes.pure _).bind (u := []) ((readData_consumes [x, y]).map _)

/-! ## Reading a body -/

namespace ChunkAux

/-- Every size line has a character. -/
theorem length_text_pos (l : SizeLine) : 0 < l.text.length := by
  have := List.length_pos_iff.mpr l.digits_ne
  rw [SizeLine.text, List.length_append]
  omega

/-- Two bytes at least follow the zero chunk. -/
theorem trailerWire_crlf (B : ChunkedBody) : ∃ x y, B.trailerWire ++ crlf = x :: y :: (B.trailerWire ++ crlf).drop 2 := by
  have h : 2 ≤ (B.trailerWire ++ crlf).length := by simp [crlf]
  obtain ⟨x, y, l, hl⟩ : ∃ x y l, B.trailerWire ++ crlf = x :: y :: l := by
    rcases hl : B.trailerWire ++ crlf with _ | ⟨x, _ | ⟨y, l⟩⟩
    · simp [hl] at h
    · simp [hl] at h
    · exact ⟨x, y, l, rfl⟩
  exact ⟨x, y, by rw [hl]; rfl⟩

end ChunkAux

/-- The loop of `read_chunked_payload` takes the chunks `cs` and the end of a body up to what it leaves. Where all sizes fit it
returns the data of the chunks. -/
theorem readChunkedPayloadLoop_consumes (B : ChunkedBody) : ∀ cs : List DataChunk, ∃ taken,
    cs.flatMap DataChunk.wire ++ B.ending = taken ++ B.leftoverFrom cs ∧ ∀ payload : Bytes, ∃ r : Chunk × Bytes,
      (∀ fuel, taken.length < fuel → Consumes (readChunkedPayloadLoop fuel payload) taken r) ∧
      ((∀ c ∈ cs, c.Small) → r.1.extention = B.last.extention ∧ r.2 = payload ++ cs.flatMap DataChunk.data) := by
  intro cs
  induction cs with
  | nil =>
    obtain ⟨x, y, hxy⟩ := trailerWire_crlf B
    refine ⟨B.last.text ++ crlf ++ ([] ++ [x, y]), ?_, fun payload => ?_⟩
    · rw [List.flatMap_nil, List.nil_append, ChunkedBody.leftoverFrom, ChunkedBody.ending]
      conv_lhs => rw [hxy]
      simp
    · refine ⟨({ size := 0, extention := B.last.extention, data := [] }, payload), ?_, fun _ => ⟨rfl, by simp⟩⟩
      rintro (_ | fuel) hfuel
      · omega
      rw [readChunkedPayloadLoop]
      refine ((readChunk_consumes B.last [] B.last_zero (by decide) x y).bind ?_).cast (List.append_nil _)
      rw [List.append_nil]
      exact Consumes.pure _
  | cons c cs ih =>
    by_cases hc : c.Small
    · obtain ⟨taken, htaken, hread⟩ := ih
      refine ⟨c.wire ++ taken, ?_, fun payload => ?_⟩
      · rw [ChunkedBody.leftoverFrom, if_pos hc, List.flatMap_cons, List.append_assoc, htaken, List.append_assoc]
      · obtain ⟨r, hr, hsmall⟩ := hread (payload ++ c.data)
        refine ⟨r, ?_, ?_⟩
        · rintro (_ | fuel) hfuel
          · omega
          have hpos := length_text_pos c.line
          have hlt : taken.length < fuel := by
            simp only [DataChunk.wire, List.length_append] at hfuel
            omega
          have hne : c.data.length > 0 := List.length_pos_iff.mpr c.data_ne
          have hwire : c.wire = c.line.text ++ crlf ++ (c.data ++ [cr, lf]) := by simp [DataChunk.wire, crlf]
          rw [readChunkedPayloadLoop, hwire]
          refine (readChunk_consumes c.line c.data c.value_eq hc cr lf).bind ?_
          simp only [ne_eq, not_true_eq_false, if_false, hne, if_true]
          exact hr fuel hlt
        · intro hall
          obtain ⟨h1, h2⟩ := hsmall (fun d hd => hall d (List.mem_cons_of_mem _ hd))
          exact ⟨h1, by rw [h2, List.flatMap_cons, List.append_assoc]⟩
    · have hbig : 2 ^ 31 ≤ c.line.value := by
        rw [c.value_eq]
        exact not_lt.mp hc
      obtain ⟨x, y, l, hl⟩ : ∃ x y l, c.data ++ crlf = x :: y :: l := by
        rcases hd : c.data with _ | ⟨x, _ | ⟨y, l⟩⟩
        · exact absurd hd c.data_ne
        · exact ⟨x, cr, [lf], rfl⟩
        · exact ⟨x, y, l ++ crlf, rfl⟩
      obtain ⟨chunk, hsize, hchunk⟩ := readChunk_consumes_big c.line hbig x y
      refine ⟨c.line.text ++ crlf ++ [x, y], ?_, fun payload => ?_⟩
      · rw [ChunkedBody.leftoverFrom, if_neg hc, List.flatMap_cons, DataChunk.wire, List.append_assoc _ c.data, hl]
        simp
      · refine ⟨(chunk, payload ++ chunk.data), ?_, fun h => absurd (h c List.mem_cons_self) hc⟩
        rintro (_ | fuel) hfuel
        · omega
        rw [readChunkedPayloadLoop]
        refine (hchunk.bind ?_).cast (List.append_nil _)
        rw [if_pos hsize]
        exact Consumes.pure _

/-- What the loop of `read_chunked_payload` reads with any sufficient fuel, `read_chunked_payload` reads. -/
theorem readChunkedPayload_of_loop {payload w : Bytes} {r : Chunk × Bytes}
    (h : ∀ fuel, w.length < fuel → Consumes (readChunkedPayloadLoop fuel payload) w r) :
    Consumes (readChunkedPayload payload) w (decide (r.1.extention = bytes "ieof"), r.2) := by
  intro s rest hs hu
  have hlen : w.length < s.unread.length + 1 := by
    have := congrArg List.length hu
    rw [List.length_append] at this
    exact Nat.lt_succ_of_le (this ▸ Nat.le_add_right _ _)
  exact ((h _ hlen).map fun r => (decide (r.1.extention = bytes "ieof"), r.2)) s rest hs hu

/-- `read_chunked_payload` takes of a body all but what it leaves. Where all sizes fit it appends the data of the chunks to the
payload and returns whether the zero chunk carries `ieof`. -/
theorem readChunkedPayload_consumes (B : ChunkedBody) : ∃ taken : Bytes, B.wire = taken ++ B.leftover ∧
    ∀ payload : Bytes, ∃ r : Bool × Bytes, Consumes (readChunkedPayload payload) taken r ∧
      (B.Small → r = (B.last.ieof, payload ++ B.content)) := by
  obtain ⟨taken, htaken, hread⟩ := readChunkedPayloadLoop_consumes B B.chunks
  refine ⟨taken, htaken, fun payload => ?_⟩
  obtain ⟨r, hr, hsmall⟩ := hread payload
  refine ⟨(decide (r.1.extention = bytes "ieof"), r.2), readChunkedPayload_of_loop hr, fun hB => ?_⟩
  obtain ⟨h1, h2⟩ := hsmall hB
  rw [h1, h2, SizeLine.extention_eq_ieof]
  rfl

/-- Nothing is left of a body exactly if every size fits and there are no trailers. -/
theorem ChunkedBody.leftover_eq_nil_iff (B : ChunkedBody) : B.leftover = [] ↔ B.Small ∧ B.trailers = [] := by
  have key : ∀ cs : List DataChunk, B.leftoverFrom cs = [] ↔ (∀ c ∈ cs, c.Small) ∧ B.trailers = [] := by
    intro cs
    induction cs with
    | nil =>
      rw [ChunkedBody.leftoverFrom, List.drop_eq_nil_iff, ChunkedBody.trailerWire]
      rcases ht : B.trailers with _ | ⟨t, ts⟩
      · simp [crlf]
      · simp [crlf]
        omega
    | cons c cs ih =>
      rw [ChunkedBody.leftoverFrom]
      by_cases hc : c.Small
      · rw [if_pos hc, ih]
        simp [hc]
      · have hpos := length_text_pos B.last
        rw [if_neg hc]
        simp only [List.append_eq_nil_iff, List.mem_cons, forall_eq_or_imp, hc, false_and, iff_false, not_and]
        intro _ _ hend
        have hlen := congrArg List.length hend
        simp only [ChunkedBody.ending, List.length_append, List.length_nil] at hlen
        omega
  exact key B.chunks

/-- Every body takes some bytes. -/
theorem ChunkedBody.length_wire_pos (B : ChunkedBody) : 0 < B.wire.length := by
  have := length_text_pos B.last
  simp only [ChunkedBody.wire, ChunkedBody.ending, List.length_append]
  omega

/-- A body without trailers whose sizes fit is read whole. -/
theorem readChunkedPayload_content {B : ChunkedBody} (hB : B.Small) (ht : B.trailers = []) (payload : Bytes) :
    Consumes (readChunkedPayload payload) B.wire (B.last.ieof, payload ++ B.content) := by
  obtain ⟨taken, htaken, hread⟩ := readChunkedPayload_consumes B
  obtain ⟨r, hr, hsmall⟩ := hread payload
  rw [B.leftover_eq_nil_iff.mpr ⟨hB, ht⟩, List.append_nil] at htaken
  rw [htaken, ← hsmall hB]
  exact hr

end BitzServer
