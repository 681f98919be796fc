import BitzServer.Icap.ChunkedBody

/-!
# The chunk grammar

`read_chunked_payload` against the grammar of chunked bodies: numbers of either case and with leading zeros, at most one extension a
size line, any data. A NUL in an extension ends the size line.
-/

namespace BitzServer

/-- An ASCII character that is no line end. -/
def isAsciiText (c : Byte) : Bool := c < 128 && c != cr && c != lf

/-- A size line for the number `n`, with or without an extension whose characters meet `ok`; `ieof` tells whether the extension is
`ieof` up to blanks around it. -/
structure IsSizeLine (ok : Byte → Bool) (n : Nat) (ieof : Bool) (text : Bytes) : Prop where
  parts : ∃ (digits : Bytes) (extension : Option Bytes),
    text = digits ++ (match extension with | some e => bytes ";" ++ e | none => []) ∧
    (digits ≠ [] ∧ (∀ c ∈ digits, isHexDigit c = true) ∧ hexValue digits = n) ∧
    (∀ e ∈ extension, ∀ c ∈ e, ok c = true ∧ c ≠ 59) ∧ ieof = decide (extension.map trim = some (bytes "ieof"))

/-- Chunks on the wire, each with its size line, and the zero chunk with its size line. -/
def grammarWire (chunks : List (Bytes × Bytes)) (last : Bytes) : Bytes :=
  chunks.flatMap (fun chunk => chunk.1 ++ crlf ++ chunk.2 ++ crlf) ++ (last ++ crlf ++ crlf)

/-- The reader appends the data of the chunks to every payload, reports `ieof` as it stands in the last size line, and leaves what
follows. -/
def Decodes (chunks : List (Bytes × Bytes)) (last : Bytes) (ieof : Bool) : Prop :=
  ∀ (payload rest : Bytes) (s : Conn), s.good = true → s.unread = grammarWire chunks last ++ rest →
    (readChunkedPayload payload).run s = .ok ((ieof, payload ++ chunks.flatMap Prod.snd), { s with unread := rest })

namespace ChunkGrammarAux

/-- A size line of text as one of a chunked body. -/
theorem exists_sizeLine {n : Nat} {ieof : Bool} {text : Bytes} (h : IsSizeLine isText n ieof text) :
    ∃ l : SizeLine, l.text = text ∧ l.value = n ∧ l.ieof = ieof := by
  obtain ⟨digits, extension, htext, ⟨hne, hhex, hvalue⟩, hext, hieof⟩ := h.parts
  refine ⟨⟨digits, extension, hne, hhex, fun e he c hc => (hext e he c hc).1⟩, htext.symm, hvalue, ?_⟩
  rw [hieof]
  exact beq_eq_decide _ _

/-- Chunks with size lines of text as those of a chunked body. -/
theorem exists_chunks : ∀ {chunks : List (Bytes × Bytes)},
    (∀ chunk ∈ chunks, (chunk.2 ≠ [] ∧ chunk.2.length < 2 ^ 31) ∧ ∃ ieof, IsSizeLine isText chunk.2.length ieof chunk.1) →
    ∃ cs : List DataChunk, cs.flatMap DataChunk.wire = chunks.flatMap (fun chunk => chunk.1 ++ crlf ++ chunk.2 ++ crlf) ∧
      cs.flatMap DataChunk.data = chunks.flatMap Prod.snd ∧ ∀ c ∈ cs, c.Small
  | [], _ => ⟨[], rfl, rfl, nofun⟩
  | (text, data) :: chunks, h => by
    obtain ⟨⟨hne, hlt⟩, ieof, hline⟩ := h (text, data) List.mem_cons_self
    obtain ⟨l, rfl, hvalue, -⟩ := exists_sizeLine hline
    obtain ⟨cs, hwire, hdata, hsmall⟩ := exists_chunks fun c hc => h c (List.mem_cons_of_mem _ hc)
    refine ⟨⟨l, data, hne, hvalue⟩ :: cs, ?_, ?_, ?_⟩
    · rw [List.flatMap_cons, List.flatMap_cons, hwire]
      rfl
    · rw [List.flatMap_cons, List.flatMap_cons, hdata]
    · intro c hc
      rcases List.mem_cons.mp hc with rfl | hc
      · exact hlt
      · exact hsmall c hc

end ChunkGrammarAux

open ChunkGrammarAux

/-- Chunks of any data and the zero chunk are decoded, where the extensions are text. -/
theorem decodes {chunks : List (Bytes × Bytes)} {last : Bytes} {ieof : Bool}
    (hchunks : ∀ chunk ∈ chunks, (chunk.2 ≠ [] ∧ chunk.2.length < 2 ^ 31) ∧ ∃ ieof, IsSizeLine isText chunk.2.length ieof chunk.1)
    (hlast : IsSizeLine isText 0 ieof last) : Decodes chunks last ieof := by
  obtain ⟨cs, hwire, hdata, hsmall⟩ := exists_chunks hchunks
  obtain ⟨l, rfl, hzero, rfl⟩ := exists_sizeLine hlast
  let B : ChunkedBody := { chunks := cs, last := l, trailers := [], last_zero := hzero, trailers_line := by simp }
  have hB : B.wire = grammarWire chunks l.text := by
    rw [ChunkedBody.wire, grammarWire, hwire]
    rfl
  intro payload rest s hg hs
  have hread := readChunkedPayload_content (B := B) hsmall rfl payload s rest hg (by rw [hB]; exact hs)
  rw [hread, ← hdata]
  rfl

/-- A chunk with an extension, and `ieof` behind a zero in two digits. -/
theorem decodes_ieof : Decodes [(bytes "02;x=1", bytes "\r\n")] (bytes "00; ieof") true := by
  refine decodes ?_ ⟨bytes "00", some (bytes " ieof"), rfl, by decide, by decide, by decide⟩
  intro chunk hchunk
  obtain rfl := List.mem_singleton.mp hchunk
  exact ⟨by decide, false, ⟨bytes "02", some (bytes "x=1"), rfl, by decide, by decide, by decide⟩⟩

/-- A NUL in an extension ends the size line. -/
theorem decodes_false : ¬∀ (chunks : List (Bytes × Bytes)) (last : Bytes) (ieof : Bool),
    (∀ chunk ∈ chunks, (chunk.2 ≠ [] ∧ chunk.2.length < 2 ^ 31) ∧ ∃ ieof, IsSizeLine isAsciiText chunk.2.length ieof chunk.1) →
    IsSizeLine isAsciiText 0 ieof last → Decodes chunks last ieof := by
  intro h
  have hline : IsSizeLine isAsciiText 0 false (bytes "0;" ++ [0]) :=
    ⟨bytes "0", some [0], rfl, by decide, by decide, by decide⟩
  have hrun := h [] _ false nofun hline [] [] (Conn.ofInput _) rfl rfl
  have hread : (readChunkedPayload []).run (Conn.ofInput (grammarWire [] (bytes "0;" ++ [0]) ++ [])) =
      .ok ((false, []), { Conn.ofInput (grammarWire [] (bytes "0;" ++ [0]) ++ []) with unread := crlf }) :=
    rfl
  have hrest := congrArg (fun r => r.2.unread) (Except.ok.inj (hread.symm.trans hrun))
  exact absurd hrest (by decide)

end BitzServer
