import BitzServer.Icap.Lines

/-!
# The readers of the client stream

`read_line` is there twice: headers are read into a buffer, the lines of chunks into a string. The two copies read the same line from every
stream. `read_data` reads blocks and tests the stream between a block and its appending, so a block that ends the stream is lost.
-/

namespace BitzServer

open Feed

/-! ## The two line readers -/

namespace LineAux

/-- The loop over the buffer keeps and leaves what the loop over the string keeps and leaves, if the buffer has room for all it
takes. Behind a `\r` there is a character to drop, so `i--` and `erase` do the same. -/
theorem readLineLoop_agrees (inclEndl : Bool) : ∀ (input line : Bytes) (cLast : Byte), (cLast = cr → line ≠ []) →
    ∃ out taken rest good, readLineLoop inclEndl line cLast input = .ok (out, rest, good) ∧ input = taken ++ rest ∧
      ∀ bufLength, line.length + taken.length < bufLength →
        ∃ good', readLineBufLoop bufLength inclEndl line cLast input = (out, rest, good') := by
  intro input
  induction input with
  | nil =>
    intro line cLast _
    refine ⟨line, [], [], false, rfl, rfl, fun bufLength hroom => ?_⟩
    -- a buffer that is just filled does not see the end of the stream
    by_cases hfull : line.length < bufLength - 1
    · exact ⟨false, by rw [readLineBufLoop, if_pos hfull]⟩
    · exact ⟨true, by rw [readLineBufLoop, if_neg hfull]⟩
  | cons c input ih =>
    intro line cLast hlast
    have hnext : ∀ {bufLength k : Nat}, line.length + (k + 1) < bufLength → line.length < bufLength - 1 := by
      intro bufLength k h
      omega
    by_cases hpos : isPositive c = true
    · by_cases hend : cLast = cr ∧ c = lf
      · cases inclEndl with
        | true =>
          refine ⟨line ++ [c], [c], input, true, ?_, rfl, fun bufLength hroom => ⟨true, ?_⟩⟩
          · rw [readLineLoop, if_pos hpos, if_pos hend]
            rfl
          · rw [readLineBufLoop, if_pos (hnext hroom)]
            simp only [if_pos hpos, if_pos hend, if_true]
        | false =>
          refine ⟨line.dropLast, [c], input, true, ?_, rfl, fun bufLength hroom => ⟨true, ?_⟩⟩
          · rw [readLineLoop, if_pos hpos, if_pos hend, eraseLast, if_neg (hlast hend.1)]
            rfl
          · rw [readLineBufLoop, if_pos (hnext hroom)]
            simp only [if_pos hpos, if_pos hend, Bool.false_eq_true, if_false]
      · obtain ⟨out, taken, rest, good, h1, h2, h3⟩ := ih (line ++ [c]) c (fun _ => by simp)
        refine ⟨out, c :: taken, rest, good, ?_, by rw [h2, List.cons_append], fun bufLength hroom => ?_⟩
        · rw [readLineLoop, if_pos hpos, if_neg hend, h1]
        · rw [List.length_cons] at hroom
          obtain ⟨good', h4⟩ := h3 bufLength (by simp; omega)
          refine ⟨good', ?_⟩
          rw [readLineBufLoop, if_pos (hnext hroom)]
          simp only [if_pos hpos, if_neg hend, h4]
    · refine ⟨line, [c], input, true, by rw [readLineLoop, if_neg hpos], rfl, fun bufLength hroom => ⟨true, ?_⟩⟩
      rw [readLineBufLoop, if_pos (hnext hroom)]
      simp only [if_neg hpos]

end LineAux

open LineAux

/-- On every stream the two readers agree. The reader that fills a buffer, given more room than the other takes bytes, stores the same
line with a NUL behind it, returns its length and leaves the same bytes unread. -/
theorem readLine_agrees (inclEndl : Bool) (conn : Conn) : ∃ line taken conn', (readLine inclEndl).run conn = .ok (line, conn') ∧
    conn.unread = taken ++ conn'.unread ∧
    ∀ buf : Bytes, taken.length < buf.length → ∃ buf' conn'', (fillLine inclEndl buf).run conn = .ok ((line.length, buf'), conn'') ∧
      buf'.take line.length = line ∧ buf'[line.length]? = some 0 ∧ conn''.unread = conn'.unread := by
  obtain ⟨line, taken, rest, good, h1, h2, h3⟩ :=
    readLineLoop_agrees inclEndl (if conn.good then conn.unread else []) [] 0 (by decide)
  refine ⟨line, taken, _, readChars_run h1, ?_, fun buf hroom => ?_⟩
  · by_cases hg : conn.good = true
    · rw [if_pos hg] at h2 ⊢
      exact h2
    · rw [if_neg hg] at h2 ⊢
      rw [(List.append_eq_nil_iff.mp h2.symm).1, List.nil_append]
  · obtain ⟨good', h4⟩ := h3 buf.length (by rwa [List.length_nil, Nat.zero_add])
    have hne : buf ≠ [] := List.length_pos_iff.mp (Nat.zero_lt_of_lt hroom)
    obtain ⟨line', buf', conn'', h5, h6, h7, h8⟩ := fillLine_run inclEndl hne conn
    have hsame := (readChars_run (congrArg Except.ok h4)).symm.trans h5
    obtain ⟨rfl, rfl⟩ := Prod.mk.inj (Except.ok.inj hsame)
    refine ⟨buf', _, h6, h7, h8, ?_⟩
    by_cases hg : conn.good = true
    · rw [if_pos hg, if_pos hg]
    · rw [if_neg hg, if_neg hg]

/-! ## Reading data -/

namespace DataAux

/-- A stream that holds as many bytes as `read_data` is asked for loses none. -/
theorem readData_enough {size : Int} {conn : Conn} (hg : conn.good = true) (hsize : size ≤ conn.unread.length) :
    (readData size).run conn = .ok (conn.unread.take size.toNat, { conn with unread := conn.unread.drop size.toNat }) := by
  by_cases hpos : 0 < size
  · have hlen : ((conn.unread.take size.toNat).length : Int) = size := by
      rw [List.length_take]
      omega
    have hread := readData_consumes (conn.unread.take size.toNat) conn (conn.unread.drop size.toNat) hg
      (List.take_append_drop _ _).symm
    rw [hlen] at hread
    exact hread
  · have hzero : size.toNat = 0 := by omega
    rw [readData_of_nonpos (by omega), hzero]
    rfl

/-- A stream that ends before the bytes `read_data` is asked for gives its whole blocks; the bytes after them are taken from the stream
and dropped. -/
theorem readDataLoop_short : ∀ (fuel : Nat) (size : Int) (data : Bytes) (conn : Conn), conn.good = true → size.toNat < fuel →
    conn.unread.length < size → ∃ conn', (readDataLoop fuel size data).run conn =
      .ok (data ++ conn.unread.take (conn.unread.length / icapBufferSize * icapBufferSize), conn') ∧ conn'.unread = [] := by
  intro fuel
  induction fuel with
  | zero => intro size data conn _ h; omega
  | succ fuel ih =>
    intro size data conn hg hfuel hshort
    rw [readDataLoop, if_pos (by omega)]
    by_cases hblock : icapBufferSize ≤ conn.unread.length
    · have hn : (min size icapBufferSize).toNat = icapBufferSize := by omega
      have hread : (read icapBufferSize).run conn = .ok (conn.unread.take icapBufferSize,
          { conn with unread := conn.unread.drop icapBufferSize }) := by
        rw [StateT.run, read, if_pos hg, if_pos hblock]
      have hlen : (conn.unread.take icapBufferSize).length = icapBufferSize := List.length_take_of_le hblock
      obtain ⟨conn', h1, h2⟩ := ih (size - icapBufferSize) (data ++ conn.unread.take icapBufferSize)
        { conn with unread := conn.unread.drop icapBufferSize } hg (by simp only [icapBufferSize] at *; omega)
        (by simp only [List.length_drop]; omega)
      refine ⟨conn', ?_, h2⟩
      rw [hn, run_bind_of_ok hread, run_bind_of_ok (good_run _), if_pos hg, hlen, h1, List.append_assoc, List.length_drop]
      have htake : conn.unread.take icapBufferSize ++ (conn.unread.drop icapBufferSize).take
          ((conn.unread.length - icapBufferSize) / icapBufferSize * icapBufferSize) =
            conn.unread.take (conn.unread.length / icapBufferSize * icapBufferSize) := by
        have hdiv : conn.unread.length / icapBufferSize * icapBufferSize =
            icapBufferSize + (conn.unread.length - icapBufferSize) / icapBufferSize * icapBufferSize := by
          simp only [icapBufferSize] at *
          omega
        rw [hdiv, List.take_add]
      rw [htake]
    · have hread : (read (min size icapBufferSize).toNat).run conn = .ok (conn.unread, { conn with unread := [], good := false }) := by
        rw [StateT.run, read, if_pos hg, if_neg (by omega)]
      have hzero : conn.unread.length / icapBufferSize = 0 := Nat.div_eq_of_lt (by omega)
      refine ⟨{ conn with unread := [], good := false }, ?_, rfl⟩
      rw [run_bind_of_ok hread, run_bind_of_ok (good_run _), if_neg Bool.false_ne_true, hzero, Nat.zero_mul, List.take_zero,
        List.append_nil]
      rfl

theorem readData_short {size : Int} {conn : Conn} (hg : conn.good = true) (hsize : conn.unread.length < size) :
    ∃ conn', (readData size).run conn =
      .ok (conn.unread.take (conn.unread.length / icapBufferSize * icapBufferSize), conn') ∧ conn'.unread = [] :=
  readDataLoop_short (size.toNat + 1) size [] conn hg (Nat.lt_succ_self _) hsize

end DataAux

open DataAux

/-- On a good stream with this content `read_data` returns what it takes from the stream: as many bytes as it is asked for, or all there are. -/
def LosesNoByte (input : Bytes) (size : Int) : Prop := ∀ conn : Conn, conn.good = true → conn.unread = input →
  ∃ data conn', (readData size).run conn = .ok (data, conn') ∧ data ++ conn'.unread = input ∧
    data.length = min (max size 0).toNat input.length

/-- `read_data` loses no byte exactly if the stream holds what it is asked for, or ends at the end of a block. -/
theorem losesNoByte_iff (input : Bytes) (size : Int) :
    LosesNoByte input size ↔ size ≤ input.length ∨ icapBufferSize ∣ input.length := by
  by_cases hsize : size ≤ input.length
  · refine iff_of_true (fun conn hg hu => ?_) (Or.inl hsize)
    subst hu
    refine ⟨_, _, readData_enough hg hsize, List.take_append_drop _ _, ?_⟩
    rw [List.length_take]
    omega
  · have hshort : (input.length : Int) < size := by omega
    constructor
    · intro h
      have hgood : (Conn.ofInput input).good = true := rfl
      obtain ⟨conn', hrun, -⟩ := readData_short hgood hshort
      obtain ⟨data, conn'', hrun', -, hlen⟩ := h (Conn.ofInput input) rfl rfl
      obtain ⟨rfl, -⟩ := Prod.mk.inj (Except.ok.inj (hrun.symm.trans hrun'))
      rw [List.length_take] at hlen
      refine Or.inr (Nat.dvd_of_mod_eq_zero ?_)
      simp only [Conn.ofInput, icapBufferSize] at *
      omega
    · intro h
      obtain ⟨k, hk⟩ := h.resolve_left hsize
      intro conn hg hu
      subst hu
      obtain ⟨conn', hrun, hempty⟩ := readData_short hg hshort
      have hall : conn.unread.length / icapBufferSize * icapBufferSize = conn.unread.length :=
        Nat.div_mul_cancel ⟨k, hk⟩
      rw [hall, List.take_length] at hrun
      exact ⟨conn.unread, conn', hrun, by rw [hempty, List.append_nil], by omega⟩

/-- Three bytes that end the stream are taken from it and not returned when five are asked for. -/
theorem losesNoByte_false : ¬∀ (input : Bytes) (size : Int), LosesNoByte input size := by
  intro h
  obtain ⟨data, conn', hrun, hdata, -⟩ := h (bytes "abc") 5 (Conn.ofInput (bytes "abc")) rfl rfl
  have hlost : (readData 5).run (Conn.ofInput (bytes "abc")) =
      .ok ([], { Conn.ofInput [] with good := false }) := rfl
  obtain ⟨rfl, rfl⟩ := Prod.mk.inj (Except.ok.inj (hrun.symm.trans hlost))
  exact absurd hdata (by decide)

end BitzServer
