import BitzServer.Icap.ChunkedBody

/-!
# Chunk sizes

How a size gets from the size line to `read_data`: it is stored by `hextodec`, unless the field is blank, and it is narrowed to an
`int`.
-/

namespace BitzServer

open Feed

/-! ## Large sizes -/

/-- `read_chunk` returns the chunk with its size and all of its data, and leaves the rest. -/
def HonoursSize (c : DataChunk) (rest : Bytes) : Prop :=
  ∀ s : Conn, s.good = true → s.unread = c.wire ++ rest → ∃ chunk, readChunk.run s = .ok (chunk, { s with unread := rest }) ∧
    chunk.size = c.data.length ∧ chunk.data = c.data

/-- A size that an `unsigned int` can hold is honoured exactly if an `int` can hold it. -/
theorem honoursSize_iff (c : DataChunk) (rest : Bytes) : HonoursSize c rest ↔ c.Small := by
  constructor
  · intro h
    by_contra hbig
    replace hbig : 2 ^ 31 ≤ c.line.value := by
      rw [c.value_eq]
      exact not_lt.mp hbig
    obtain ⟨x, y, l, hl⟩ : ∃ x y l, c.data ++ crlf ++ rest = x :: y :: l := by
      rcases hd : c.data with _ | ⟨x, _ | ⟨y, l⟩⟩
      · exact absurd hd c.data_ne
      · exact ⟨x, cr, [lf] ++ rest, rfl⟩
      · exact ⟨x, y, l ++ crlf ++ rest, rfl⟩
    have hinput : c.wire ++ rest = c.line.text ++ crlf ++ [x, y] ++ l := by
      rw [DataChunk.wire, List.append_assoc _ c.data, List.append_assoc _ (c.data ++ crlf), hl, List.append_assoc _ [x, y]]
      rfl
    obtain ⟨chunk, hsize, hchunk⟩ := readChunk_consumes_big c.line hbig x y
    obtain ⟨chunk', hrun, hsize', hdata⟩ := h (Conn.ofInput (c.wire ++ rest)) rfl rfl
    have hrun' := hchunk (Conn.ofInput (c.wire ++ rest)) l rfl hinput
    obtain ⟨rfl, -⟩ := Prod.mk.inj (Except.ok.inj (hrun'.symm.trans hrun))
    exact hsize (by rw [hdata, hsize'])
  · intro hsmall s hg hs
    have hwire : c.wire = c.line.text ++ crlf ++ (c.data ++ [cr, lf]) := by simp [DataChunk.wire, crlf]
    rw [hwire] at hs
    exact ⟨_, readChunk_consumes c.line c.data c.value_eq hsmall cr lf s rest hg hs, rfl, rfl⟩

/-- A chunk of the least size that an `int` cannot hold. -/
def largeChunk : DataChunk where
  line := SizeLine.ofNat (2 ^ 31)
  data := List.replicate (2 ^ 31) 0
  data_ne := by
    intro hnil
    have := congrArg List.length hnil
    rw [List.length_replicate] at this
    exact absurd this (by decide)
  value_eq := by rw [List.length_replicate]; exact hexValue_dectohex _

theorem honoursSize_false : ¬∀ (c : DataChunk) (rest : Bytes), c.data.length < 2 ^ 32 → HonoursSize c rest := by
  intro h
  have hlen : largeChunk.data.length = 2 ^ 31 := List.length_replicate
  have hsmall : largeChunk.data.length < 2 ^ 31 := (honoursSize_iff largeChunk []).mp (h largeChunk [] (by rw [hlen]; decide))
  rw [hlen] at hsmall
  exact absurd hsmall (by decide)

/-! ## Stored sizes -/

/-- The number a text starts with after blanks: a sign and a `0x` may stand before the digits, no digit is 0, the value saturates and
is negated modulo 2 ^ 32 after a minus sign. -/
def leadingHex (s : Bytes) : Nat :=
  let signed := s.dropWhile isSpace
  let unsigned := if signed.head? = some 45 ∨ signed.head? = some 43 then signed.tail else signed
  let hasBase := unsigned.head? = some 48 ∧ (unsigned.tail.head? = some 120 ∨ unsigned.tail.head? = some 88)
  let v := hexValue ((if hasBase then unsigned.drop 2 else unsigned).takeWhile isHexDigit)
  if 2 ^ 32 ≤ v then 2 ^ 32 - 1 else if signed.head? = some 45 then (2 ^ 32 - v) % 2 ^ 32 else v

/-- A character that is not blank is there. -/
def HasText (s : Bytes) : Prop := ∃ c ∈ s, isSpace c = false

instance (s : Bytes) : Decidable (HasText s) := inferInstanceAs (Decidable (∃ c ∈ s, isSpace c = false))

/-- The first field of a size line. -/
def sizeField (line : Bytes) : Bytes := line.takeWhile (fun c => !(bytes ";").contains c)

namespace ChunkSizesAux

/-- The extraction stores the leading number, unless the text is blank. -/
theorem extractHex_eq (s : Bytes) : extractHex s = if HasText s then some (leadingHex s) else none := by
  unfold extractHex leadingHex
  cases hs : s.dropWhile isSpace with
  | nil =>
    have hblank : ¬HasText s := by
      rintro ⟨c, hc, htext⟩
      have := List.dropWhile_eq_nil_iff.mp hs c hc
      rw [htext] at this
      exact Bool.noConfusion this
    rw [if_neg hblank]
  | cons c rest =>
    have htext : HasText s := by
      by_contra hblank
      have hall : s.dropWhile isSpace = [] := List.dropWhile_eq_nil_iff.mpr fun d hd => by
        by_contra hne
        exact hblank ⟨d, hd, by simpa using hne⟩
      rw [hs] at hall
      exact List.cons_ne_nil c rest hall
    rw [if_pos htext]
    simp only [List.head?_cons, List.tail_cons, Option.some.injEq, Bool.or_eq_true, beq_iff_eq]
    -- what follows the sign: the two tests for a `0x` agree
    generalize (if c = 45 ∨ c = 43 then rest else c :: rest) = u
    rcases u with _ | ⟨a, _ | ⟨x, u⟩⟩
    · rfl
    · simp
    · by_cases ha : a = 48
      · subst ha
        simp
      · simp [ha]

/-- The fields of a size line. -/
theorem split_line (line : Bytes) : ∃ fields, split line (bytes ";") = .ok (sizeField line :: fields) := by
  obtain ⟨fields, hcut⟩ := Fields.exists_splitOnP_eq (fun c => (bytes ";").contains c) line
  exact ⟨fields, by rw [split_eq, hcut]; rfl⟩

/-- A field with text is stored, whatever is on the stack. -/
theorem hextodec_of_hasText {s : Bytes} (h : HasText s) : hextodec s = pure (leadingHex s) := by
  rw [hextodec, extractHex_eq, if_pos h]

/-- A blank field leaves what is on the stack. -/
theorem hextodec_of_blank {s : Bytes} (h : ¬HasText s) (conn : Conn) :
    (hextodec s).run conn = .ok ((conn.stack 0).toNat, { conn with stack := fun i => conn.stack (i + 1) }) := by
  rw [hextodec, extractHex_eq, if_neg h]
  rfl

end ChunkSizesAux

open ChunkSizesAux

/-- Whatever was on the stack, `hextodec` returns the leading number of the field, and so does `read_chunk_size` for a line with this
field; `read_chunk_header` stores it. -/
structure OnlyArgument (s : Bytes) : Prop where
  hextodec : ∀ conn, ∃ conn', (hextodec s).run conn = .ok (leadingHex s, conn')
  readChunkSize : ∀ conn line conn₁, (readLine false).run conn = .ok (line, conn₁) → sizeField line = s →
    ∃ conn', readChunkSize.run conn = .ok (leadingHex s, conn')
  readChunkHeader : ∀ chunk conn line conn₁, (readLine false).run conn = .ok (line, conn₁) → sizeField line = s →
    ∃ chunk' conn', (readChunkHeader chunk).run conn = .ok (chunk', conn') ∧ chunk'.size = leadingHex s

/-- The size depends on the field alone exactly if the field is not blank. -/
theorem onlyArgument_iff (s : Bytes) : OnlyArgument s ↔ HasText s := by
  constructor
  · intro h
    by_contra hblank
    have hstack : ∀ x : UInt32, x.toNat = leadingHex s := by
      intro x
      obtain ⟨conn', hrun⟩ := h.hextodec { Conn.ofInput [] with stack := fun _ => x }
      rw [hextodec_of_blank hblank] at hrun
      exact (Prod.mk.inj (Except.ok.inj hrun)).1
    exact absurd ((hstack 0).trans (hstack 1).symm) (by decide)
  · intro htext
    have hne : s.length > 0 := by
      obtain ⟨c, hc, -⟩ := htext
      exact List.length_pos_of_mem hc
    refine ⟨fun conn => ⟨conn, by rw [hextodec_of_hasText htext]; rfl⟩, ?_, ?_⟩
    · intro conn line conn₁ hline hfield
      obtain ⟨fields, hsplit⟩ := split_line line
      rw [hfield] at hsplit
      refine ⟨conn₁, ?_⟩
      rw [readChunkSize, run_bind_of_ok hline, hsplit]
      show (hextodec s).run conn₁ = _
      rw [hextodec_of_hasText htext]
      rfl
    · intro chunk conn line conn₁ hline hfield
      obtain ⟨fields, hsplit⟩ := split_line line
      rw [hfield] at hsplit
      have hlift : (liftM (Except.ok (s :: fields) : Except Fault (List Bytes)) : SockM (List Bytes)).run conn₁ =
        .ok (s :: fields, conn₁) := rfl
      have hfirst : (liftM (vecAt (s :: fields) 0) : SockM Bytes).run conn₁ = .ok (s, conn₁) := rfl
      rw [readChunkHeader, run_bind_of_ok hline, hsplit, run_bind_of_ok hlift, if_pos (by simp), run_bind_of_ok hfirst, if_pos hne,
        hextodec_of_hasText htext]
      rcases fields with _ | ⟨extention, _ | ⟨field, fields⟩⟩
      · exact ⟨{ chunk with size := leadingHex s }, conn₁, rfl, rfl⟩
      · exact ⟨{ chunk with size := leadingHex s, extention := trim extention }, conn₁, rfl, rfl⟩
      · exact ⟨{ chunk with size := leadingHex s }, conn₁, rfl, rfl⟩

/-- An empty field. -/
theorem onlyArgument_false : ¬∀ s, OnlyArgument s := by
  intro h
  exact absurd ((onlyArgument_iff []).mp (h [])) (by simp [HasText])

end BitzServer
