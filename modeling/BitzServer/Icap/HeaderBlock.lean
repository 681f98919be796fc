import BitzServer.Icap.Request

/-!
# Reading a header block

`read_req_header` reads with a buffer of `ICAP_BUFFER_SIZE` bytes, one of them for the NUL, and stops at the first piece of two
bytes or less. A line longer than a piece is read in several pieces, and a piece can end before, inside or behind the line end.
-/

namespace BitzServer

open Feed

/-- The number of characters a piece can have. -/
def pieceLength : Nat := icapBufferSize - 1

/-- What `read_line` passes over: positive, not `\r`. -/
def isLineChar (c : Byte) : Bool := isPositive c && c != cr

/-- Where the pieces end in the lines of a block. A piece that ends with a line but before its line end is followed by a piece of
two bytes, which is taken for the empty line; a piece that ends inside a line end carries the `\n` over to the next line. -/
def LinesFit : Bool → List Bytes → Prop
  | carry, [] => carry = false
  | carry, l :: ls =>
    (l.length + carry.toNat) % pieceLength ≠ 0 ∧ LinesFit (decide ((l.length + carry.toNat) % pieceLength = pieceLength - 1)) ls

instance decidableLinesFit : ∀ (carry : Bool) (ls : List Bytes), Decidable (LinesFit carry ls)
  | carry, [] => inferInstanceAs (Decidable (carry = false))
  | carry, l :: ls =>
    have := decidableLinesFit (decide ((l.length + carry.toNat) % pieceLength = pieceLength - 1)) ls
    inferInstanceAs (Decidable (_ ∧ _))

/-- A character of a line of text is one the line reader passes over. -/
theorem isLineChar_of_isText {c : Byte} (h : isText c = true) : isLineChar c = true := by
  obtain ⟨h1, h2, -⟩ := isPositive_of_isText h
  simp [isLineChar, h1, h2]

/-- Lines of at most 1021 characters fit. -/
theorem linesFit_of_short : ∀ {ls : List Bytes}, (∀ l ∈ ls, l ≠ [] ∧ l.length ≤ pieceLength - 2) → LinesFit false ls
  | [], _ => rfl
  | l :: ls, h => by
    obtain ⟨hne, hlen⟩ := h l List.mem_cons_self
    have hpos := List.length_pos_iff.mpr hne
    have hP : pieceLength = 1023 := rfl
    have hmod : (l.length + Bool.toNat false) % pieceLength = l.length := Nat.mod_eq_of_lt (by simp; omega)
    rw [LinesFit, hmod, decide_eq_false (by omega)]
    exact ⟨by omega, linesFit_of_short fun x hx => h x (List.mem_cons_of_mem _ hx)⟩

/-- The lines with their line ends. -/
def blockLines (ls : List Bytes) : Bytes := ls.flatMap (· ++ crlf)

namespace HeaderBlockAux

/-- A full buffer ends the line reader. -/
theorem readLineBufLoop_full {n : Nat} {buf : Bytes} (h : ¬buf.length < n - 1) (inclEndl : Bool) (cLast : Byte) (input : Bytes) :
    readLineBufLoop n inclEndl buf cLast input = (buf, input, true) := by
  rw [readLineBufLoop.eq_def]
  exact if_neg h

/-- The buffer reader stores characters of a line as long as there is room. -/
theorem readLineBufLoop_chars (n : Nat) (inclEndl : Bool) (input : Bytes) : ∀ (w buf : Bytes) (cLast : Byte), cLast ≠ cr →
    (∀ c ∈ w, isLineChar c = true) → buf.length + w.length ≤ n - 1 → ∃ c, c ≠ cr ∧
      readLineBufLoop n inclEndl buf cLast (w ++ input) = readLineBufLoop n inclEndl (buf ++ w) c input := by
  intro w
  induction w with
  | nil => exact fun buf cLast hlast _ _ => ⟨cLast, hlast, by rw [List.append_nil, List.nil_append]⟩
  | cons d w ih =>
    intro buf cLast hlast hw hroom
    have hd : isPositive d = true ∧ d ≠ cr := by simpa [isLineChar] using hw d List.mem_cons_self
    rw [List.length_cons] at hroom
    obtain ⟨c, hc, heq⟩ := ih (buf ++ [d]) d hd.2 (fun e he => hw e (List.mem_cons_of_mem _ he)) (by simp; omega)
    refine ⟨c, hc, ?_⟩
    rw [List.cons_append, readLineBufLoop, if_pos (by omega)]
    simp only [hd.1, if_true]
    rw [if_neg (fun h => hlast h.1), heq, List.append_assoc, List.singleton_append]

/-- What the loop over the buffer takes of every input that starts with `u`, the buffer reader reads. -/
theorem readLineBuf_of_loop {u v : Bytes}
    (h : ∀ rest, readLineBufLoop icapBufferSize true [] 0 (u ++ rest) = (v, rest, true)) :
    Consumes (readLineBuf icapBufferSize true) u v := by
  intro s rest hg hu
  replace hg : s.good = true := hg
  replace hu : s.unread = u ++ rest := hu
  rw [StateT.run, readLineBuf, readChars, if_pos hg, hu, h, ← hg]
  rfl

/-- A line that fits a piece with its line end is one piece. -/
theorem readLineBuf_line {w : Bytes} (hw : ∀ c ∈ w, isLineChar c = true) (hfit : w.length + 2 ≤ pieceLength) :
    Consumes (readLineBuf icapBufferSize true) (w ++ crlf) (w ++ crlf) := by
  refine readLineBuf_of_loop fun rest => ?_
  have hroom : w.length + 2 ≤ icapBufferSize - 1 := hfit
  have hcr : isPositive cr = true := by decide
  have hlf : isPositive lf = true := by decide
  obtain ⟨c, hc, heq⟩ := readLineBufLoop_chars icapBufferSize true (crlf ++ rest) w [] 0 (by decide) hw (by simp; omega)
  rw [List.append_assoc, heq, List.nil_append, crlf, List.cons_append, readLineBufLoop, if_pos (by omega)]
  simp only [hcr, hc, false_and, if_true, if_false, List.singleton_append]
  rw [readLineBufLoop, if_pos (by simp; omega)]
  simp only [hlf, and_self, if_true, List.append_assoc, List.singleton_append]

/-- A line that fits a piece with the half of its line end. -/
theorem readLineBuf_half {w : Bytes} (hw : ∀ c ∈ w, isLineChar c = true) (hfit : w.length + 1 = pieceLength) :
    Consumes (readLineBuf icapBufferSize true) (w ++ [cr]) (w ++ [cr]) := by
  refine readLineBuf_of_loop fun rest => ?_
  have hroom : w.length + 1 = icapBufferSize - 1 := hfit
  have hcr : isPositive cr = true := by decide
  obtain ⟨c, hc, heq⟩ := readLineBufLoop_chars icapBufferSize true ([cr] ++ rest) w [] 0 (by decide) hw (by simp; omega)
  rw [List.append_assoc, heq, List.nil_append, List.singleton_append, readLineBufLoop, if_pos (by omega)]
  simp only [hcr, hc, false_and, if_true, if_false]
  exact readLineBufLoop_full (by simp; omega) _ _ _

/-- A full piece inside a line. -/
theorem readLineBuf_full {w : Bytes} (hw : ∀ c ∈ w, isLineChar c = true) (hfit : w.length = pieceLength) :
    Consumes (readLineBuf icapBufferSize true) w w := by
  refine readLineBuf_of_loop fun rest => ?_
  have hroom : w.length = icapBufferSize - 1 := hfit
  obtain ⟨c, -, heq⟩ := readLineBufLoop_chars icapBufferSize true rest w [] 0 (by decide) hw (by simp; omega)
  rw [heq, List.nil_append]
  exact readLineBufLoop_full (by omega) _ _ _

/-- A piece of more than two bytes is header data, and the loop goes on. -/
theorem readReqHeaderLoop_piece {u : Bytes} (hu : Consumes (readLineBuf icapBufferSize true) u u) (hlen : 2 < u.length)
    (fuel : Nat) (data : Bytes) {s : Conn} {t : Bytes} (hg : s.good = true) (hs : s.unread = u ++ t) :
    (readReqHeaderLoop (fuel + 1) data).run s = (readReqHeaderLoop fuel (data ++ u)).run { s with unread := t } := by
  rw [readReqHeaderLoop, run_bind_of_ok (hu s t hg hs), if_pos hlen]
  rfl

/-- A piece of two bytes is taken for the empty line. -/
theorem readReqHeaderLoop_crlf (fuel : Nat) (data : Bytes) {s : Conn} {t : Bytes} (hg : s.good = true)
    (hs : s.unread = crlf ++ t) : (readReqHeaderLoop (fuel + 1) data).run s = .ok (data, { s with unread := t }) := by
  have hu := readLineBuf_line (w := []) nofun (by decide)
  rw [readReqHeaderLoop, run_bind_of_ok (hu s t hg hs), if_neg (by decide)]
  rfl

/-- The pieces of one line `w` and its line end: at a multiple of the piece length the loop stops there, one before it the `\n`
is left for the next piece, else the loop goes on with the next line. -/
theorem readReqHeaderLoop_line (t : Bytes) : ∀ (n : Nat) (w : Bytes), w.length = n → (∀ c ∈ w, isLineChar c = true) →
    ∀ (fuel : Nat) (data : Bytes) (s : Conn), s.good = true → s.unread = w ++ crlf ++ t → s.unread.length < fuel →
      (n % pieceLength = 0 ∧ (readReqHeaderLoop fuel data).run s = .ok (data ++ w, { s with unread := t })) ∨
      (n % pieceLength ≠ 0 ∧ n % pieceLength = pieceLength - 1 ∧ ∃ fuel', (lf :: t).length < fuel' ∧
        (readReqHeaderLoop fuel data).run s = (readReqHeaderLoop fuel' (data ++ w ++ [cr])).run { s with unread := lf :: t }) ∨
      (n % pieceLength ≠ 0 ∧ n % pieceLength ≠ pieceLength - 1 ∧ ∃ fuel', t.length < fuel' ∧
        (readReqHeaderLoop fuel data).run s = (readReqHeaderLoop fuel' (data ++ w ++ crlf)).run { s with unread := t }) := by
  intro n
  induction n using Nat.strong_induction_on with
  | _ n ih =>
    rintro w hn hw (_ | fuel) data s hg hs hfuel
    · omega
    have hP : pieceLength = 1023 := rfl
    rw [hs, List.length_append, List.length_append] at hfuel
    have h2 : crlf.length = 2 := rfl
    rcases Nat.lt_or_ge n pieceLength with hlt | hge
    · rw [Nat.mod_eq_of_lt hlt]
      rcases Nat.eq_zero_or_pos n with rfl | hpos
      · -- an empty rest of a line: the line end is a piece of its own
        have hnil : w = [] := List.eq_nil_of_length_eq_zero hn
        subst hnil
        rw [List.nil_append] at hs
        exact Or.inl ⟨rfl, by rw [readReqHeaderLoop_crlf fuel data hg hs, List.append_nil]⟩
      · rcases Nat.eq_or_lt_of_le (Nat.le_sub_one_of_lt hlt) with hhalf | hfit
        · refine Or.inr (Or.inl ⟨Nat.pos_iff_ne_zero.mp hpos, hhalf, fuel, by simp only [List.length_cons]; omega, ?_⟩)
          have hs' : s.unread = (w ++ [cr]) ++ (lf :: t) := by
            rw [hs, crlf]
            simp
          rw [readReqHeaderLoop_piece (readLineBuf_half hw (by omega)) (by simp; omega) fuel data hg hs', List.append_assoc]
        · refine Or.inr (Or.inr ⟨Nat.pos_iff_ne_zero.mp hpos, by omega, fuel, by omega, ?_⟩)
          rw [readReqHeaderLoop_piece (readLineBuf_line hw (by omega)) (by simp [h2]; omega) fuel data hg hs, List.append_assoc]
    · -- a full piece of the line, then the rest of the line
      have htake : (w.take pieceLength).length = pieceLength := by
        rw [List.length_take]
        omega
      have hdrop : (w.drop pieceLength).length = n - pieceLength := by
        rw [List.length_drop, hn]
      have hs' : s.unread = w.take pieceLength ++ (w.drop pieceLength ++ crlf ++ t) := by
        rw [hs, ← List.append_assoc, ← List.append_assoc, List.take_append_drop]
      have hstep := readReqHeaderLoop_piece (readLineBuf_full (fun c hc => hw c (List.mem_of_mem_take hc)) htake)
        (by omega) fuel data hg hs'
      have hrest := ih (n - pieceLength) (by omega) (w.drop pieceLength) hdrop (fun c hc => hw c (List.mem_of_mem_drop hc)) fuel
        (data ++ w.take pieceLength) { s with unread := w.drop pieceLength ++ crlf ++ t } hg rfl
        (by simp only [List.length_append, hdrop]; omega)
      rw [← Nat.mod_eq_sub_mod hge, ← hstep, List.append_assoc data, List.take_append_drop] at hrest
      exact hrest

/-- The loop returns on every stream, and what it had read stays: a pass that is not the last one takes three bytes. -/
theorem readReqHeaderLoop_run : ∀ (fuel : Nat) (data : Bytes) (s : Conn), s.unread.length < fuel →
    ∃ d s', (readReqHeaderLoop fuel data).run s = .ok (data ++ d, s') ∧ s.Shrinks s' := by
  intro fuel
  induction fuel with
  | zero => intro data s h; omega
  | succ fuel ih =>
    intro data s h
    obtain ⟨b, s1, h1, h2⟩ := readLineBuf_run icapBufferSize true s
    rw [readReqHeaderLoop, run_bind_of_ok h1]
    by_cases hb : b.length > 2
    · obtain ⟨d, s2, h3, h4⟩ := ih (data ++ b) s1 (by omega)
      refine ⟨b ++ d, s2, by rw [if_pos hb, h3, List.append_assoc], ?_⟩
      simp only [Conn.Shrinks] at h4 ⊢
      omega
    · refine ⟨[], s1, by rw [if_neg hb, List.append_nil]; rfl, ?_⟩
      simp only [Conn.Shrinks]
      omega

/-- What the loop reads has only characters that are greater than 0. -/
theorem readReqHeaderLoop_isPositive : ∀ (fuel : Nat) {data d : Bytes} {s s' : Conn},
    (readReqHeaderLoop fuel data).run s = .ok (d, s') → (∀ c ∈ data, isPositive c = true) → ∀ c ∈ d, isPositive c = true
  | 0, _, _, _, _, h, _ => absurd h nofun
  | fuel + 1, data, d, s, s', h, hdata => by
    obtain ⟨b, s1, hrun, -⟩ := readLineBuf_run icapBufferSize true s
    rw [readReqHeaderLoop, run_bind_of_ok hrun] at h
    split at h
    · refine readReqHeaderLoop_isPositive fuel h fun c hc => ?_
      rcases List.mem_append.mp hc with hc | hc
      · exact hdata c hc
      · exact readLineBuf_isPositive hrun c hc
    · obtain ⟨rfl, -⟩ := Prod.mk.inj (Except.ok.inj h)
      exact hdata

/-- The bytes before a block of lines: the `\n` that the piece before has left. -/
def carried (carry : Bool) : Bytes := if carry then [lf] else []

theorem length_carried (carry : Bool) : (carried carry).length = carry.toNat := by
  cases carry <;> rfl

theorem length_blockLines_cons (l : Bytes) (ls : List Bytes) :
    (blockLines (l :: ls)).length = l.length + 2 + (blockLines ls).length := by
  simp [blockLines, crlf]
  omega

/-- The loop over a block: where the lines fit, it ends behind the empty line with the lines; else the data it ends with has another
length than the lines. -/
theorem readReqHeaderLoop_block (rest : Bytes) : ∀ (ls : List Bytes) (carry : Bool), (∀ l ∈ ls, ∀ c ∈ l, isLineChar c = true) →
    ∀ (fuel : Nat) (data : Bytes) (s : Conn), s.good = true →
      s.unread = carried carry ++ (blockLines ls ++ crlf ++ rest) → s.unread.length < fuel →
      ∃ d s', (readReqHeaderLoop fuel data).run s = .ok (data ++ d, s') ∧
        (LinesFit carry ls → d = carried carry ++ blockLines ls ∧ s' = { s with unread := rest }) ∧
        (¬LinesFit carry ls → d.length ≠ carry.toNat + (blockLines ls).length) := by
  have hlfc : isLineChar lf = true := by decide
  have hcarried : ∀ carry, ∀ c ∈ carried carry, isLineChar c = true := by
    intro carry
    cases carry
    · exact nofun
    · simp [carried, hlfc]
  have h2 : crlf.length = 2 := rfl
  intro ls
  induction ls with
  | nil =>
    rintro carry - (_ | fuel) data s hg hs hfuel
    · omega
    cases carry with
    | false =>
      refine ⟨[], { s with unread := rest }, ?_, fun _ => ⟨rfl, rfl⟩, fun h => absurd rfl h⟩
      rw [readReqHeaderLoop_crlf fuel data hg hs, List.append_nil]
    | true =>
      -- the empty line is a piece of three bytes: header data
      have hstep := readReqHeaderLoop_piece (readLineBuf_line (hcarried true) (by decide)) (by decide) fuel data hg
        (t := rest) (hs.trans (by simp [blockLines]))
      have hlen := congrArg List.length hs
      simp only [List.length_append, h2] at hlen
      obtain ⟨d, s', hrun, -⟩ := readReqHeaderLoop_run fuel (data ++ (carried true ++ crlf)) { s with unread := rest } (by
        show rest.length < fuel
        omega)
      refine ⟨carried true ++ crlf ++ d, s', ?_, fun h => absurd h (by simp [LinesFit]), fun _ => ?_⟩
      · rw [hstep, hrun, List.append_assoc]
      · simp [carried, blockLines, h2]
  | cons l ls ih =>
    intro carry hls fuel data s hg hs hfuel
    have hw : ∀ c ∈ carried carry ++ l, isLineChar c = true := by
      intro c hc
      rcases List.mem_append.mp hc with hc | hc
      · exact hcarried carry c hc
      · exact hls l List.mem_cons_self c hc
    have hwlen : (carried carry ++ l).length = l.length + carry.toNat := by
      rw [List.length_append, length_carried, Nat.add_comm]
    have hs' : s.unread = (carried carry ++ l) ++ crlf ++ (blockLines ls ++ crlf ++ rest) := by
      rw [hs]
      simp [blockLines]
    have hcons := length_blockLines_cons l ls
    rw [LinesFit]
    rcases readReqHeaderLoop_line _ _ _ hwlen hw fuel data s hg hs' hfuel with
      ⟨h0, hrun⟩ | ⟨h0, h1, fuel', hfuel', hrun⟩ | ⟨h0, h1, fuel', hfuel', hrun⟩
    · refine ⟨carried carry ++ l, _, hrun, fun h => absurd h0 h.1, fun _ => ?_⟩
      rw [hwlen, hcons]
      omega
    · rw [decide_eq_true h1]
      obtain ⟨d, s', hrest, hfit, hnot⟩ := ih true (fun x hx => hls x (List.mem_cons_of_mem _ hx)) fuel'
        (data ++ (carried carry ++ l) ++ [cr]) { s with unread := lf :: (blockLines ls ++ crlf ++ rest) } hg rfl hfuel'
      refine ⟨(carried carry ++ l) ++ [cr] ++ d, s', ?_, fun h => ?_, fun h => ?_⟩
      · rw [hrun, hrest]
        simp
      · obtain ⟨rfl, rfl⟩ := hfit h.2
        exact ⟨by simp [carried, blockLines, crlf], rfl⟩
      · have := hnot fun h' => h ⟨h0, h'⟩
        simp only [List.length_append, hwlen, hcons, List.length_singleton, Bool.toNat_true] at this ⊢
        omega
    · rw [decide_eq_false h1]
      obtain ⟨d, s', hrest, hfit, hnot⟩ := ih false (fun x hx => hls x (List.mem_cons_of_mem _ hx)) fuel'
        (data ++ (carried carry ++ l) ++ crlf) { s with unread := blockLines ls ++ crlf ++ rest } hg rfl hfuel'
      refine ⟨(carried carry ++ l) ++ crlf ++ d, s', ?_, fun h => ?_, fun h => ?_⟩
      · rw [hrun, hrest]
        simp
      · obtain ⟨rfl, rfl⟩ := hfit h.2
        exact ⟨by simp [carried, blockLines, crlf], rfl⟩
      · have := hnot fun h' => h ⟨h0, h'⟩
        simp only [List.length_append, hwlen, hcons, h2, Bool.toNat_false] at this ⊢
        omega

end HeaderBlockAux

open HeaderBlockAux

/-- `read_req_header` returns on every stream. -/
theorem readReqHeader_run (s : Conn) : ∃ h s', readReqHeader.run s = .ok (h, s') ∧ s.Shrinks s' := by
  obtain ⟨d, s', hrun, hs'⟩ := readReqHeaderLoop_run (s.unread.length + 1) [] s (Nat.lt_succ_self _)
  obtain ⟨h, hh, -⟩ := RequestHeader.new_total ([] ++ d)
  refine ⟨h, s', ?_, hs'⟩
  show ((readReqHeaderLoop (s.unread.length + 1) []) >>= _).run s = _
  rw [run_bind_of_ok hrun, hh]
  rfl

/-- The header data has only characters that are greater than 0, whatever the stream. -/
theorem rawData_isPositive {s s' : Conn} {h : RequestHeader} (hrun : readReqHeader.run s = .ok (h, s')) :
    ∀ c ∈ h.rawData, isPositive c = true := by
  obtain ⟨d, s1, hloop, -⟩ := readReqHeaderLoop_run (s.unread.length + 1) [] s (Nat.lt_succ_self _)
  obtain ⟨h', hnew, hraw⟩ := RequestHeader.new_total ([] ++ d)
  have hread : readReqHeader.run s = .ok (h', s1) := by
    show ((readReqHeaderLoop (s.unread.length + 1) []) >>= _).run s = _
    rw [run_bind_of_ok hloop, hnew]
    rfl
  obtain ⟨rfl, -⟩ := Prod.mk.inj (Except.ok.inj (hread.symm.trans hrun))
  rw [hraw]
  exact readReqHeaderLoop_isPositive _ hloop nofun

/-- `read_req_header` over a block of lines: where the lines fit, the header is parsed from the lines and the stream is left behind
the empty line; else the header data is not the lines. -/
theorem readReqHeader_block {ls : List Bytes} (hls : ∀ l ∈ ls, ∀ c ∈ l, isLineChar c = true) {s : Conn} {rest : Bytes}
    (hg : s.good = true) (hs : s.unread = blockLines ls ++ crlf ++ rest) : ∃ h s', readReqHeader.run s = .ok (h, s') ∧
      (LinesFit false ls → RequestHeader.new (blockLines ls) = .ok h ∧ s' = { s with unread := rest }) ∧
      (¬LinesFit false ls → h.rawData ≠ blockLines ls) := by
  obtain ⟨d, s', hrun, hfit, hnot⟩ := readReqHeaderLoop_block rest ls false hls (s.unread.length + 1) [] s hg hs (Nat.lt_succ_self _)
  obtain ⟨h, hh, hraw⟩ := RequestHeader.new_total d
  refine ⟨h, s', ?_, fun hf => ?_, fun hf heq => hnot hf ?_⟩
  · show ((readReqHeaderLoop (s.unread.length + 1) []) >>= _).run s = _
    rw [run_bind_of_ok hrun, List.nil_append, hh]
    rfl
  · obtain ⟨rfl, rfl⟩ := hfit hf
    exact ⟨hh, rfl⟩
  · rw [← hraw, heq, Bool.toNat_false, Nat.zero_add]

end BitzServer
