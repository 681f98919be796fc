import BitzServer.Icap.HeaderBlock

/-!
# Reading the header block of a request

`read_req_header` against the lines of a block. It is exact on every block whose lines fit the pieces of its buffer, in
particular on all blocks with lines short enough, and on no other block. Of bytes above 0x7F it keeps none.
-/

namespace BitzServer

/-- On a stream of the lines, the empty line and `rest`, `read_req_header` keeps exactly the lines and leaves exactly `rest`. -/
def ReadsBlock (ls : List Bytes) (rest : Bytes) : Prop :=
  ∀ s : Conn, s.good = true → s.unread = blockLines ls ++ crlf ++ rest →
    ∃ h, readReqHeader.run s = .ok (h, { s with unread := rest }) ∧ h.rawData = blockLines ls

namespace HeaderReaderAux

/-- Lines that fit are read exactly. -/
theorem readsBlock_of_linesFit {ls : List Bytes} (hls : ∀ l ∈ ls, ∀ c ∈ l, isText c = true) (hfit : LinesFit false ls)
    (rest : Bytes) : ReadsBlock ls rest := by
  intro s hg hs
  obtain ⟨h, s', hrun, hyes, -⟩ := readReqHeader_block (fun l hl c hc => isLineChar_of_isText (hls l hl c hc)) hg hs
  obtain ⟨hnew, rfl⟩ := hyes hfit
  obtain ⟨h', hnew', hraw⟩ := RequestHeader.new_total (blockLines ls)
  rw [hnew] at hnew'
  obtain rfl : h = h' := Except.ok.inj hnew'
  exact ⟨h, hrun, hraw⟩

/-- Lines that do not fit are not read exactly. -/
theorem not_readsBlock {ls : List Bytes} (hls : ∀ l ∈ ls, ∀ c ∈ l, isText c = true) (hfit : ¬LinesFit false ls) (rest : Bytes) :
    ¬ReadsBlock ls rest := by
  intro hread
  let s := Conn.ofInput (blockLines ls ++ crlf ++ rest)
  obtain ⟨h, hrun, hraw⟩ := hread s rfl rfl
  have hs : s.unread = blockLines ls ++ crlf ++ rest := rfl
  obtain ⟨h', s', hrun', -, hno⟩ := readReqHeader_block (fun l hl c hc => isLineChar_of_isText (hls l hl c hc)) rfl hs
  rw [hrun] at hrun'
  have heq : h = h' := congrArg Prod.fst (Except.ok.inj hrun')
  subst heq
  exact hno hfit hraw

end HeaderReaderAux

open HeaderReaderAux

/-- The lines of a block are read exactly if and only if they fit the pieces of the buffer. -/
theorem readsBlock_iff {ls : List Bytes} (hls : ∀ l ∈ ls, l ≠ [] ∧ ∀ c ∈ l, isText c = true) (rest : Bytes) :
    ReadsBlock ls rest ↔ LinesFit false ls := by
  constructor
  · intro h
    by_contra hfit
    exact not_readsBlock (fun l hl => (hls l hl).2) hfit rest h
  · exact fun hfit => readsBlock_of_linesFit (fun l hl => (hls l hl).2) hfit rest

/-- A short block is read exactly. -/
theorem readsBlock_options : ReadsBlock [bytes "OPTIONS / ICAP/1.0", bytes "Host: a"] (bytes "rest") :=
  (readsBlock_iff (by decide) _).mpr (by decide)

/-- A line that fills the buffer is taken for the end of the block. -/
theorem readsBlock_false : ¬∀ (ls : List Bytes) (rest : Bytes), ls ≠ [] → (∀ l ∈ ls, l ≠ [] ∧ ∀ c ∈ l, isText c = true) →
    ReadsBlock ls rest := by
  intro h
  have hline : ∀ l ∈ [List.replicate pieceLength (65 : Byte)], l ≠ [] ∧ ∀ c ∈ l, isText c = true := by
    intro l hl
    obtain rfl := List.mem_singleton.mp hl
    refine ⟨List.ne_nil_of_length_pos (by rw [List.length_replicate]; decide), fun c hc => ?_⟩
    rw [List.eq_of_mem_replicate hc]
    decide
  refine not_readsBlock (fun l hl => (hline l hl).2) ?_ [] (h _ [] (by simp) hline)
  rintro ⟨h0, -⟩
  rw [List.length_replicate, Bool.toNat_false, Nat.add_zero, Nat.mod_self] at h0
  exact h0 rfl

/-! ## Bytes above 0x7F -/

/-- The lines of a block that fit the buffer, of bytes other than NUL and line ends, are read exactly if and only if all of them are
ASCII. -/
theorem readsBlock_ascii_iff {ls : List Bytes} (hls : ∀ l ∈ ls, (l ≠ [] ∧ l.length ≤ pieceLength - 2) ∧
    ∀ c ∈ l, c ≠ 0 ∧ c ≠ cr ∧ c ≠ lf) (rest : Bytes) : ReadsBlock ls rest ↔ ∀ l ∈ ls, ∀ c ∈ l, c < 128 := by
  constructor
  · intro h l hl c hc
    obtain ⟨header, hrun, hraw⟩ := h (Conn.ofInput (blockLines ls ++ crlf ++ rest)) rfl rfl
    have hmem : c ∈ header.rawData := by
      rw [hraw]
      exact List.mem_flatMap.mpr ⟨l, hl, List.mem_append_left _ hc⟩
    have hpos := rawData_isPositive hrun c hmem
    rw [isPositive, Bool.and_eq_true, decide_eq_true_iff, decide_eq_true_iff] at hpos
    exact hpos.2
  · intro h
    refine readsBlock_of_linesFit (fun l hl c hc => ?_) (linesFit_of_short fun l hl => (hls l hl).1) rest
    obtain ⟨h0, hcr, hlf⟩ := (hls l hl).2 c hc
    have hpos : 0 < c := UInt8.pos_iff_ne_zero.mpr h0
    simp [isText, isPositive, hpos, h l hl c hc, hcr, hlf]

/-- A block of ASCII lines is read exactly. -/
theorem readsBlock_ascii_options : ReadsBlock [bytes "OPTIONS / ICAP/1.0", bytes "Host: a"] (bytes "rest") :=
  (readsBlock_ascii_iff (by decide) _).mpr (by decide)

/-- A byte above 0x7F is dropped. -/
theorem readsBlock_ascii_false : ¬∀ (ls : List Bytes) (rest : Bytes), ls ≠ [] → (∀ l ∈ ls, (l ≠ [] ∧ l.length ≤ pieceLength - 2) ∧
    ∀ c ∈ l, c ≠ 0 ∧ c ≠ cr ∧ c ≠ lf) → ReadsBlock ls rest := by
  intro h
  have hline : ∀ l ∈ [bytes "Host: " ++ [0xC3, 0xA9]], (l ≠ [] ∧ l.length ≤ pieceLength - 2) ∧ ∀ c ∈ l, c ≠ 0 ∧ c ≠ cr ∧ c ≠ lf := by
    decide
  obtain ⟨header, hrun, hraw⟩ := h _ [] (by simp) hline (Conn.ofInput _) rfl rfl
  have hpos := rawData_isPositive hrun 0xC3 (by rw [hraw]; decide)
  exact absurd hpos (by decide)

end BitzServer
