import BitzServer.Icap.ChunkedBody

/-!
# The two chunked readers

`read_chunked` and `read_chunked_payload` on the same body: the first one passes over the trailers, the second one takes two bytes
after the zero chunk; the first one loses count after 2 ^ 32 bytes.
-/

namespace BitzServer

open Feed

/-- What `read_chunked` leaves of the chunks `cs` and of the end of the body when it has read `n` bytes of data. -/
def ChunkedBody.uncounted (B : ChunkedBody) : Nat → List DataChunk → Bytes
  | _, [] => []
  | n, c :: cs => if n < 2 ^ 32 then B.uncounted (n + c.data.length) cs else cs.flatMap DataChunk.wire ++ B.ending

/-- All chunks but the last one have less than 2 ^ 32 bytes of data. -/
def ChunkedBody.Counted (B : ChunkedBody) : Prop := (B.chunks.dropLast.flatMap DataChunk.data).length < 2 ^ 32

instance (B : ChunkedBody) : Decidable B.Counted := inferInstanceAs (Decidable (_ < _))

namespace ChunkedReadersAux

theorem ending_ne_nil (B : ChunkedBody) : B.ending ≠ [] := by
  have := List.ne_nil_of_length_pos (ChunkAux.length_text_pos B.last)
  simp [ChunkedBody.ending, this]

/-- `read_chunk_size` reads a size line. -/
theorem readChunkSize_consumes (l : SizeLine) : Consumes readChunkSize (l.text ++ crlf) (min l.value (2 ^ 32 - 1)) := by
  have hline := readLine_consumes false (ChunkAux.isText_text l)
  have hsplit := split_eq l.text (bytes ";")
  rw [ChunkAux.splitOnP_text] at hsplit
  rw [if_neg (by decide), List.append_nil] at hline
  unfold readChunkSize
  refine (hline.bind ((Consumes.lift hsplit).bind ((Consumes.lift (a := l.digits) rfl).bind (v := []) ?_))).cast (List.append_nil _)
  rw [hextodec_digits l.digits_ne l.digits_hex]
  exact Consumes.pure _

/-- A line of text is passed over. -/
theorem skipLines_consumes : ∀ (lines : List Bytes), (∀ t ∈ lines, t ≠ [] ∧ ∀ c ∈ t, isText c = true) → ∀ fuel,
    (lines.flatMap (· ++ crlf) ++ crlf).length < fuel → Consumes (skipLines fuel) (lines.flatMap (· ++ crlf) ++ crlf) ()
  | _, _, 0, h => absurd h (Nat.not_lt_zero _)
  | [], _, fuel + 1, _ => by
    have hline := readLine_consumes true (w := []) (by simp)
    rw [skipLines]
    refine (hline.bind (v := []) ?_).cast (by simp)
    exact Consumes.pure ()
  | t :: lines, h, fuel + 1, hfuel => by
    obtain ⟨hne, htext⟩ := h t List.mem_cons_self
    have hline := readLine_consumes true htext
    have hlt : (lines.flatMap (· ++ crlf) ++ crlf).length < fuel := by
      simp only [List.flatMap_cons, List.length_append] at hfuel ⊢
      have := List.length_pos_iff.mpr hne
      omega
    rw [skipLines]
    refine (hline.bind (v := lines.flatMap (· ++ crlf) ++ crlf) ?_).cast (by simp)
    have hlong : (t ++ if (true : Bool) then crlf else []).length > 2 := by
      have := List.length_pos_iff.mpr hne
      simp only [if_true, crlf, List.length_append, List.length_cons, List.length_nil]
      omega
    rw [if_pos hlong]
    exact skipLines_consumes lines (fun u hu => h u (List.mem_cons_of_mem _ hu)) fuel hlt

/-- A pass of `read_chunked` takes the size line and the data of a chunk; its test holds once 2 ^ 32 bytes have been read before. -/
theorem readChunkedLoop_pass {c : DataChunk} (hc : c.Small) (fuel : Nat) {w data r : Bytes}
    (hnext : Consumes (if 2 ^ 32 ≤ data.length then pure (data ++ c.data)
      else (do let _ ← readData 2; readChunkedLoop fuel (data ++ c.data)) : SockM Bytes) w r) :
    Consumes (readChunkedLoop (fuel + 1) data) (c.line.text ++ crlf ++ (c.data ++ w)) r := by
  have hsmall : c.data.length < 2 ^ 31 := hc
  have hpos : c.data.length > 0 := List.length_pos_iff.mpr c.data_ne
  have hsize : min c.line.value (2 ^ 32 - 1) = c.data.length := by
    rw [c.value_eq]
    omega
  have htest : (data ++ c.data).length - toUInt32 data.length ≠ c.data.length ↔ 2 ^ 32 ≤ data.length := by
    rw [List.length_append]
    unfold toUInt32
    omega
  rw [readChunkedLoop]
  refine (readChunkSize_consumes c.line).bind ?_
  rw [hsize, if_pos hpos, toInt32_of_lt hsmall]
  refine (readData_consumes c.data).bind ?_
  simp only [htest]
  exact hnext

/-- The loops of `read_chunked` take the chunks `cs` and the end of a body up to what is uncounted. -/
theorem readChunkedLoop_consumes (B : ChunkedBody) : ∀ (cs : List DataChunk) (data : Bytes), (∀ c ∈ cs, c.Small) → ∃ w₁ w₂ d,
    cs.flatMap DataChunk.wire ++ B.ending = w₁ ++ w₂ ++ B.uncounted data.length cs ∧
      (∀ fuel, w₁.length < fuel → Consumes (readChunkedLoop fuel data) w₁ d) ∧
      (∀ fuel, w₂.length < fuel → Consumes (skipLines fuel) w₂ ()) ∧
      (B.uncounted data.length cs = [] → d = data ++ cs.flatMap DataChunk.data) := by
  intro cs
  induction cs with
  | nil =>
    intro data _
    refine ⟨B.last.text ++ crlf, B.trailerWire ++ crlf, data, by simp [ChunkedBody.uncounted, ChunkedBody.ending], ?_,
      fun fuel => skipLines_consumes B.trailers B.trailers_line fuel, fun _ => by simp⟩
    rintro (_ | fuel) hfuel
    · omega
    rw [readChunkedLoop]
    refine ((readChunkSize_consumes B.last).bind (v := []) ?_).cast (List.append_nil _)
    rw [B.last_zero, if_neg (by decide)]
    exact Consumes.pure data
  | cons c cs ih =>
    intro data hsmall
    have hc := hsmall c List.mem_cons_self
    have hpos := ChunkAux.length_text_pos c.line
    by_cases hcount : data.length < 2 ^ 32
    · obtain ⟨w₁, w₂, d, hwire, hloop, hskip, hcontent⟩ := ih (data ++ c.data) fun c' hc' => hsmall c' (List.mem_cons_of_mem _ hc')
      rw [List.length_append] at hwire hcontent
      refine ⟨c.wire ++ w₁, w₂, d, ?_, ?_, hskip, fun hnil => ?_⟩
      · rw [ChunkedBody.uncounted, if_pos hcount, List.flatMap_cons, List.append_assoc, hwire]
        simp only [List.append_assoc]
      · rintro (_ | fuel) hfuel
        · omega
        have hform : c.wire ++ w₁ = c.line.text ++ crlf ++ (c.data ++ (crlf ++ w₁)) := by
          simp only [DataChunk.wire, List.append_assoc]
        have hlt : w₁.length < fuel := by
          rw [hform] at hfuel
          simp only [List.length_append] at hfuel
          omega
        rw [hform]
        refine readChunkedLoop_pass hc fuel ?_
        rw [if_neg (not_le.mpr hcount)]
        exact (readData_consumes crlf).bind (hloop fuel hlt)
      · rw [ChunkedBody.uncounted, if_pos hcount] at hnil
        rw [hcontent hnil, List.flatMap_cons, List.append_assoc]
    · refine ⟨c.line.text ++ crlf ++ (c.data ++ []), crlf, data ++ c.data, ?_, ?_, ?_, fun hnil => ?_⟩
      · rw [ChunkedBody.uncounted, if_neg hcount, List.flatMap_cons, DataChunk.wire]
        simp only [List.append_assoc, List.append_nil]
      · rintro (_ | fuel) hfuel
        · omega
        refine readChunkedLoop_pass hc fuel ?_
        rw [if_pos (not_lt.mp hcount)]
        exact Consumes.pure _
      · exact fun fuel => skipLines_consumes [] (by simp) fuel
      · rw [ChunkedBody.uncounted, if_neg hcount] at hnil
        exact absurd (List.append_eq_nil_iff.mp hnil).2 (ending_ne_nil B)

/-- Nothing is uncounted exactly if all chunks but the last one leave the count below 2 ^ 32. -/
theorem uncounted_eq_nil_iff (B : ChunkedBody) : ∀ (n : Nat) (cs : List DataChunk),
    B.uncounted n cs = [] ↔ cs = [] ∨ n + (cs.dropLast.flatMap DataChunk.data).length < 2 ^ 32
  | _, [] => by simp [ChunkedBody.uncounted]
  | n, [c] => by
    rw [ChunkedBody.uncounted, ChunkedBody.uncounted]
    by_cases hn : n < 2 ^ 32
    · rw [if_pos hn]
      exact iff_of_true rfl (.inr hn)
    · rw [if_neg hn]
      refine iff_of_false (fun hnil => ending_ne_nil B (List.append_eq_nil_iff.mp hnil).2) ?_
      rintro (hnil | hlt)
      · exact List.cons_ne_nil _ _ hnil
      · exact hn hlt
  | n, c :: c' :: cs => by
    have ih := uncounted_eq_nil_iff B (n + c.data.length) (c' :: cs)
    have hlen : ((c :: c' :: cs).dropLast.flatMap DataChunk.data).length =
        c.data.length + ((c' :: cs).dropLast.flatMap DataChunk.data).length := by
      rw [List.dropLast_cons_cons, List.flatMap_cons, List.length_append]
    rw [ChunkedBody.uncounted, hlen]
    by_cases hn : n < 2 ^ 32
    · rw [if_pos hn, ih]
      simp only [List.cons_ne_nil, false_or, Nat.add_assoc]
    · rw [if_neg hn]
      refine iff_of_false (fun hnil => ending_ne_nil B (List.append_eq_nil_iff.mp hnil).2) ?_
      rintro (hnil | hlt)
      · exact List.cons_ne_nil _ _ hnil
      · omega

/-- `read_chunked` takes of a body whose sizes fit all but what is uncounted. -/
theorem readChunked_consumes {B : ChunkedBody} (hB : B.Small) : ∃ w d, B.wire = w ++ B.uncounted 0 B.chunks ∧
    Consumes readChunked w d ∧ (B.uncounted 0 B.chunks = [] → d = B.content) := by
  obtain ⟨w₁, w₂, d, hwire, hloop, hskip, hcontent⟩ := readChunkedLoop_consumes B B.chunks [] hB
  refine ⟨w₁ ++ w₂, d, hwire, ?_, fun hnil => by rw [hcontent hnil]; rfl⟩
  intro s rest hs hu
  have hlen : s.unread.length = (w₁ ++ w₂ ++ rest).length := congrArg List.length hu
  simp only [List.length_append] at hlen
  have hall : Consumes (do
      let chunkedData ← readChunkedLoop (s.unread.length + 1) []
      skipLines (s.unread.length + 1)
      return chunkedData : SockM Bytes) (w₁ ++ (w₂ ++ [])) d :=
    (hloop _ (by omega)).bind ((hskip _ (by omega)).bind (Consumes.pure d))
  rw [List.append_nil] at hall
  exact hall s rest hs hu

end ChunkedReadersAux

open ChunkedReadersAux

/-- Before a rest, both readers return the same data and leave the rest. -/
def ReadersAgree (B : ChunkedBody) (rest : Bytes) : Prop :=
  ∀ s : Conn, s.good = true → s.unread = B.wire ++ rest → ∃ data ieof s₁ s₂, readChunked.run s = .ok (data, s₁) ∧
    (readChunkedPayload []).run s = .ok ((ieof, data), s₂) ∧ s₁.unread = rest ∧ s₂.unread = rest

/-- The readers agree on a body whose sizes fit an `int` exactly if it has no trailers and `read_chunked` can count its bytes. -/
theorem readersAgree_iff {B : ChunkedBody} (hB : B.Small) (rest : Bytes) :
    ReadersAgree B rest ↔ B.trailers = [] ∧ B.Counted := by
  have hcounted : B.uncounted 0 B.chunks = [] ↔ B.Counted := by
    rw [uncounted_eq_nil_iff, Nat.zero_add]
    refine or_iff_right_of_imp fun hnil => ?_
    show (B.chunks.dropLast.flatMap DataChunk.data).length < 2 ^ 32
    rw [hnil]
    decide
  obtain ⟨w, d, hwire, hread, hcontent⟩ := readChunked_consumes hB
  obtain ⟨taken, htaken, hpayload⟩ := readChunkedPayload_consumes B
  obtain ⟨r, hr, hsmall⟩ := hpayload []
  rw [← hcounted]
  constructor
  · intro hagree
    have hinput : (Conn.ofInput (B.wire ++ rest)).unread = B.wire ++ rest := rfl
    obtain ⟨data, ieof, s₁, s₂, hrun₁, hrun₂, hrest₁, hrest₂⟩ := hagree (Conn.ofInput (B.wire ++ rest)) rfl hinput
    have hrun₁' := hread (Conn.ofInput (B.wire ++ rest)) (B.uncounted 0 B.chunks ++ rest) rfl
      (by rw [← List.append_assoc, ← hwire]; rfl)
    have hrun₂' := hr (Conn.ofInput (B.wire ++ rest)) (B.leftover ++ rest) rfl (by rw [← List.append_assoc, ← htaken]; rfl)
    obtain ⟨-, rfl⟩ := Prod.mk.inj (Except.ok.inj (hrun₁.symm.trans hrun₁'))
    obtain ⟨-, rfl⟩ := Prod.mk.inj (Except.ok.inj (hrun₂.symm.trans hrun₂'))
    have hnil₁ : B.uncounted 0 B.chunks = [] := List.append_left_eq_self.mp hrest₁
    have hnil₂ : B.leftover = [] := List.append_left_eq_self.mp hrest₂
    exact ⟨(B.leftover_eq_nil_iff.mp hnil₂).2, hnil₁⟩
  · rintro ⟨htrailers, hnil⟩ s hg hs
    have hleft := B.leftover_eq_nil_iff.mpr ⟨hB, htrailers⟩
    rw [hleft, List.append_nil] at htaken
    rw [hnil, List.append_nil] at hwire
    have hrun₁ := hread s rest hg (by rw [← hwire]; exact hs)
    have hrun₂ := hr s rest hg (by rw [← htaken]; exact hs)
    rw [hcontent hnil] at hrun₁
    rw [hsmall hB] at hrun₂
    exact ⟨B.content, B.last.ieof, _, _, hrun₁, hrun₂, rfl, rfl⟩

/-- Three bytes in one chunk, without trailers. -/
theorem readersAgree_abc : ReadersAgree (ChunkedBody.ofData (bytes "abc")) (bytes "next") :=
  (readersAgree_iff (by decide) (bytes "next")).mpr ⟨rfl, by decide⟩

/-- A body with a trailer line after the zero chunk. -/
def trailerBody : ChunkedBody := { ChunkedBody.ofData (bytes "abc") with
  trailers := [bytes "Expires: 0"]
  trailers_line := by decide }

theorem readersAgree_false : ¬∀ (B : ChunkedBody) (rest : Bytes), B.Small → ReadersAgree B rest := by
  intro h
  have hsmall : trailerBody.Small := by decide
  exact absurd ((readersAgree_iff hsmall []).mp (h trailerBody [] hsmall)).1 (by decide)

end BitzServer
