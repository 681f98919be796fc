import BitzServer.Icap.Text

/-!
# Reading lines and data

`read_line` in its two overloads and `read_data`.
-/

namespace BitzServer

open Feed

/-! ## `read_line` into a string -/

/-- `line.erase( line.size() - 1 )` -/
def eraseLast (line : Bytes) : Except Fault Bytes :=
  if line = [] then .error .outOfRange else .ok line.dropLast

/-- The loop of `read_line` into a string: `line` has been read, `cLast` last. -/
def readLineLoop (inclEndl : Bool) : Bytes → Byte → Bytes → Except Fault (Bytes × Bytes × Bool)
  | line, _, [] => .ok (line, [], false)
  | line, cLast, c :: rest =>
    if isPositive c then
      if cLast = cr ∧ c = lf then
        if inclEndl then .ok (line ++ [c], rest, true)
        else do return (← eraseLast line, rest, true)
      else readLineLoop inclEndl (line ++ [c]) c rest
    else .ok (line, rest, true)

/-- `read_line`, the overload that returns a string -/
def readLine (inclEndl : Bool) : SockM Bytes := readChars (readLineLoop inclEndl [] 0)

/-! ## `read_line` into a buffer -/

/-- The loop of `read_line` into a buffer: `buf` holds the characters before `i`, `cLast` was read last. The terminating NUL
is not part of `buf`. -/
def readLineBufLoop (bufLength : Nat) (inclEndl : Bool) : Bytes → Byte → Bytes → Bytes × Bytes × Bool
  | buf, cLast, input =>
    if buf.length < bufLength - 1 then
      match input with
      | [] => (buf, [], false)
      | c :: rest =>
        if isPositive c then
          if cLast = cr ∧ c = lf then
            -- `i--` drops the `\r`, which the last pass has stored
            if inclEndl then (buf ++ [c], rest, true) else (buf.dropLast, rest, true)
          else readLineBufLoop bufLength inclEndl (buf ++ [c]) c rest
        else (buf, rest, true)
    else (buf, input, true)

/-- `read_line`, the overload that fills a buffer and returns the number of characters stored -/
def readLineBuf (bufLength : Nat) (inclEndl : Bool) : SockM Bytes :=
  readChars (fun input => .ok (readLineBufLoop bufLength inclEndl [] 0 input))

/-! ## `read_line` into the memory of a buffer -/

/-- `buf[i] = c` -/
def store (buf : Bytes) (i : Nat) (c : Byte) : Except Fault Bytes :=
  if i < buf.length then .ok (buf.set i c) else .error .outOfRange

/-- The loop of `read_line` into a buffer on the memory of the buffer: `i` is where the next character is stored. -/
def fillLineLoop (bufLength : Nat) (inclEndl : Bool) : Bytes → Nat → Byte → Bytes → Except Fault ((Nat × Bytes) × Bytes × Bool)
  | buf, i, cLast, input =>
    if i < bufLength - 1 then
      match input with
      | [] => .ok ((i, buf), [], false)
      | c :: rest =>
        if isPositive c then
          if cLast = cr ∧ c = lf then
            if inclEndl then do return ((i + 1, ← store buf i c), rest, true)
            else .ok ((i - 1, buf), rest, true)
          else do fillLineLoop bufLength inclEndl (← store buf i c) (i + 1) c rest
        else .ok ((i, buf), rest, true)
    else .ok ((i, buf), input, true)

/-- `read_line` into a buffer on the memory of the buffer: the number that is returned, and the memory after it. -/
def fillLine (inclEndl : Bool) (buf : Bytes) : SockM (Nat × Bytes) := do
  let (i, buf) ← readChars (fillLineLoop buf.length inclEndl buf 0 0)
  return (i, ← store buf i 0)

/-! ## `read_data` -/

/-- The loop of `read_data`: `size` bytes remain to be read, `data` has been read. -/
def readDataLoop : Nat → Int → Bytes → SockM Bytes
  | 0, _, _ => throw .diverges
  | fuel + 1, size, data => do
    if size > 0 then
      let buffer ← read (min size icapBufferSize).toNat
      if ← good then readDataLoop fuel (size - buffer.length) (data ++ buffer)
      else return data
    else return data

def readData (size : Int) : SockM Bytes := readDataLoop (size.toNat + 1) size []

/-! ## Reading a line of text -/

/-- The line reader passes over characters that are neither NUL, non-ASCII nor `\r`, and takes the line end after them. -/
theorem readLineLoop_line (inclEndl : Bool) (rest : Bytes) : ∀ (w line : Bytes) (cLast : Byte), cLast ≠ cr →
    (∀ c ∈ w, isPositive c = true ∧ c ≠ cr) →
    readLineLoop inclEndl line cLast (w ++ crlf ++ rest) = .ok (line ++ w ++ if inclEndl then crlf else [], rest, true) := by
  intro w
  induction w with
  | nil =>
    intro line cLast hlast _
    have hcr : isPositive cr = true := by decide
    have hlf : isPositive lf = true := by decide
    simp only [crlf, List.nil_append, List.cons_append, readLineLoop, hcr, hlf, if_true, hlast, false_and, if_false,
      true_and]
    cases inclEndl with
    | true => simp
    | false => simp [eraseLast]
  | cons c w ih =>
    intro line cLast hlast hw
    obtain ⟨hpos, hne⟩ := hw c List.mem_cons_self
    have hstep : readLineLoop inclEndl line cLast (c :: (w ++ crlf ++ rest)) =
        readLineLoop inclEndl (line ++ [c]) c (w ++ crlf ++ rest) := by
      rw [readLineLoop, if_pos hpos, if_neg (fun h => hlast h.1)]
    rw [List.cons_append, List.cons_append, hstep, ih (line ++ [c]) c hne (fun d hd => hw d (List.mem_cons_of_mem _ hd))]
    simp

/-- `read_line` reads a line of text with its line end. -/
theorem readLine_consumes (inclEndl : Bool) {w : Bytes} (hw : ∀ c ∈ w, isText c = true) :
    Consumes (readLine inclEndl) (w ++ crlf) (w ++ if inclEndl then crlf else []) := by
  intro s rest hg hu
  replace hg : s.good = true := hg
  replace hu : s.unread = w ++ crlf ++ rest := hu
  have hloop := readLineLoop_line inclEndl rest w [] 0 (by decide)
    (fun c hc => ⟨(isPositive_of_isText (hw c hc)).1, (isPositive_of_isText (hw c hc)).2.1⟩)
  rw [StateT.run, readLine, readChars, if_pos hg, hu, hloop]
  simp only [List.nil_append]
  rw [← hg]
  rfl

/-- On any input the line reader stops, its `erase` is in range, and it takes at least the characters it keeps. -/
theorem readLineLoop_total (inclEndl : Bool) : ∀ (input line : Bytes) (cLast : Byte), (cLast = cr → line ≠ []) →
    ∃ l rest g, readLineLoop inclEndl line cLast input = .ok (l, rest, g) ∧
      l.length + rest.length ≤ line.length + input.length := by
  intro input
  induction input with
  | nil => intro line cLast _; exact ⟨line, [], false, rfl, Nat.le_refl _⟩
  | cons c input ih =>
    intro line cLast hlast
    rw [readLineLoop]
    by_cases hpos : isPositive c = true
    · rw [if_pos hpos]
      by_cases hend : cLast = cr ∧ c = lf
      · rw [if_pos hend]
        cases inclEndl with
        | true => exact ⟨line ++ [c], input, true, rfl, by simp; omega⟩
        | false =>
          rw [if_neg (by decide), eraseLast, if_neg (hlast hend.1)]
          exact ⟨line.dropLast, input, true, rfl, by simp; omega⟩
      · rw [if_neg hend]
        obtain ⟨l, rest, g, h1, h2⟩ := ih (line ++ [c]) c (fun _ => by simp)
        exact ⟨l, rest, g, h1, by simp at h2 ⊢; omega⟩
    · rw [if_neg hpos]
      exact ⟨line, input, true, rfl, by simp⟩

/-- `read_line` returns on every stream. -/
theorem readLine_within (inclEndl : Bool) : Within Conn.Shrinks (readLine inclEndl) := by
  intro s
  have hloop : ∀ input, ∃ l rest g, readLineLoop inclEndl [] 0 input = .ok (l, rest, g) ∧
      l.length + rest.length ≤ input.length := by
    intro input
    simpa using readLineLoop_total inclEndl input [] 0 (by decide)
  obtain ⟨l, s', hrun, hlen⟩ := readChars_returns hloop s
  exact ⟨l, s', hrun, Nat.le_trans (Nat.le_add_left _ _) hlen, trivial⟩

theorem readLine_writesNothing (inclEndl : Bool) : Keeps Conn.WritesNothing (readLine inclEndl) := readChars_writesNothing _

/-- The loop over the buffer takes at least the characters it stores. -/
theorem readLineBufLoop_length (bufLength : Nat) (inclEndl : Bool) : ∀ (input buf : Bytes) (cLast : Byte),
    (readLineBufLoop bufLength inclEndl buf cLast input).1.length + (readLineBufLoop bufLength inclEndl buf cLast input).2.1.length ≤
      buf.length + input.length := by
  intro input
  induction input with
  | nil =>
    intro buf cLast
    rw [readLineBufLoop]
    split <;> exact Nat.le_refl _
  | cons c input ih =>
    intro buf cLast
    rw [readLineBufLoop]
    split
    · split
      · split
        · split
          · simp only [List.length_append, List.length_cons, List.length_nil]
            omega
          · simp only [List.length_dropLast, List.length_cons]
            omega
        · have := ih (buf ++ [c]) c
          simp only [List.length_append, List.length_cons, List.length_nil] at this ⊢
          omega
      · simp only [List.length_cons]
        omega
    · exact Nat.le_refl _

/-- The loop over the buffer stores only characters that are greater than 0. -/
theorem readLineBufLoop_isPositive (bufLength : Nat) (inclEndl : Bool) : ∀ (input buf : Bytes) (cLast : Byte),
    (∀ c ∈ buf, isPositive c = true) → ∀ c ∈ (readLineBufLoop bufLength inclEndl buf cLast input).1, isPositive c = true := by
  intro input
  induction input with
  | nil =>
    intro buf cLast hbuf
    rw [readLineBufLoop]
    split <;> exact hbuf
  | cons d input ih =>
    intro buf cLast hbuf
    have happend : isPositive d = true → ∀ c ∈ buf ++ [d], isPositive c = true := by
      intro hd c hc
      rcases List.mem_append.mp hc with hc | hc
      · exact hbuf c hc
      · exact List.mem_singleton.mp hc ▸ hd
    rw [readLineBufLoop]
    split
    · by_cases hd : isPositive d = true
      · simp only [if_pos hd]
        split
        · cases inclEndl with
          | true => exact happend hd
          | false => exact fun c hc => hbuf c (List.mem_of_mem_dropLast hc)
        · exact ih (buf ++ [d]) d (happend hd)
      · simp only [if_neg hd]
        exact hbuf
    · exact hbuf

theorem readLineBuf_isPositive {bufLength : Nat} {inclEndl : Bool} {s s' : Conn} {b : Bytes}
    (h : (readLineBuf bufLength inclEndl).run s = .ok (b, s')) : ∀ c ∈ b, isPositive c = true := by
  have hloop := fun input : Bytes => readLineBufLoop_isPositive bufLength inclEndl input [] 0 nofun
  rw [StateT.run, readLineBuf, readChars] at h
  split at h
  · obtain ⟨rfl, -⟩ := Prod.mk.inj (Except.ok.inj h)
    exact hloop s.unread
  · obtain ⟨rfl, -⟩ := Prod.mk.inj (Except.ok.inj h)
    exact hloop []

/-- `read_line` into a buffer returns on every stream and takes at least the characters it stores. -/
theorem readLineBuf_run (bufLength : Nat) (inclEndl : Bool) (s : Conn) : ∃ b s',
    (readLineBuf bufLength inclEndl).run s = .ok (b, s') ∧ b.length + s'.unread.length ≤ s.unread.length := by
  refine readChars_returns (fun input => ⟨_, _, _, rfl, ?_⟩) s
  have hlen := readLineBufLoop_length bufLength inclEndl input [] 0
  rwa [List.length_nil, Nat.zero_add] at hlen

/-! ## Storing a line -/

/-- Storing below the length of the buffer is in range. -/
theorem store_ok {buf : Bytes} {i : Nat} (h : i < buf.length) (c : Byte) : store buf i c = .ok (buf.set i c) := if_pos h

/-- A character stored behind the first `i` lengthens them by one. -/
theorem take_set_succ {buf : Bytes} {i : Nat} (h : i < buf.length) (c : Byte) : (buf.set i c).take (i + 1) = buf.take i ++ [c] := by
  rw [List.take_add_one, List.take_set_of_le (Nat.le_refl i), List.getElem?_set_self h]
  rfl

/-- The loop over the memory of the buffer stores what the loop over the line keeps, inside the buffer: `i--` drops the last
character. -/
theorem fillLineLoop_eq (inclEndl : Bool) {bufLength : Nat} : ∀ (input buf : Bytes) (i : Nat) (cLast : Byte),
    buf.length = bufLength → i < bufLength → ∃ line rest good buf',
      readLineBufLoop bufLength inclEndl (buf.take i) cLast input = (line, rest, good) ∧
      fillLineLoop bufLength inclEndl buf i cLast input = .ok ((line.length, buf'), rest, good) ∧
      buf'.length = bufLength ∧ buf'.take line.length = line ∧ line.length < bufLength := by
  intro input
  induction input with
  | nil =>
    intro buf i cLast hlen hi
    have hline : (buf.take i).length = i := List.length_take_of_le (by omega)
    rw [readLineBufLoop, fillLineLoop, hline]
    split
    · exact ⟨buf.take i, [], false, buf, rfl, by rw [hline], hlen, by rw [hline], by omega⟩
    · exact ⟨buf.take i, [], true, buf, rfl, by rw [hline], hlen, by rw [hline], by omega⟩
  | cons c input ih =>
    intro buf i cLast hlen hi
    have hline : (buf.take i).length = i := List.length_take_of_le (by omega)
    have hstore : ∀ c, store buf i c = .ok (buf.set i c) := store_ok (by omega)
    have htake : ∀ c, (buf.set i c).take (i + 1) = buf.take i ++ [c] := take_set_succ (by omega)
    rw [readLineBufLoop, fillLineLoop, hline]
    by_cases hroom : i < bufLength - 1
    · rw [if_pos hroom, if_pos hroom]
      by_cases hpos : isPositive c = true
      · simp only [if_pos hpos]
        by_cases hend : cLast = cr ∧ c = lf
        · simp only [if_pos hend]
          cases inclEndl with
          | true =>
            refine ⟨buf.take i ++ [c], input, true, buf.set i c, rfl, ?_, by rw [List.length_set, hlen], ?_, ?_⟩
            · rw [hstore, List.length_append, hline]
              rfl
            · rw [List.length_append, hline]
              exact htake c
            · rw [List.length_append, hline]
              exact Nat.add_lt_of_lt_sub hroom
          | false =>
            have hdrop : (buf.take i).dropLast = buf.take (i - 1) := by
              rw [List.dropLast_take (by omega)]
            have hlength : (buf.take (i - 1)).length = i - 1 := List.length_take_of_le (by omega)
            exact ⟨(buf.take i).dropLast, input, true, buf, rfl, by rw [hdrop, hlength]; rfl, hlen, by rw [hdrop, hlength],
              by rw [hdrop, hlength]; omega⟩
        · simp only [if_neg hend]
          rw [hstore, ← htake c]
          exact ih (buf.set i c) (i + 1) c (by rw [List.length_set, hlen]) (by omega)
      · simp only [if_neg hpos]
        exact ⟨buf.take i, input, true, buf, rfl, by rw [hline], hlen, by rw [hline], by omega⟩
    · rw [if_neg hroom, if_neg hroom]
      exact ⟨buf.take i, c :: input, true, buf, rfl, by rw [hline], hlen, by rw [hline], by omega⟩

/-- `read_line` into a buffer that is there stores inside it: the line, then a NUL. It returns the length of the line. -/
theorem fillLine_run (inclEndl : Bool) {buf : Bytes} (hne : buf ≠ []) (s : Conn) : ∃ line buf' s',
    (readLineBuf buf.length inclEndl).run s = .ok (line, s') ∧ (fillLine inclEndl buf).run s = .ok ((line.length, buf'), s') ∧
      buf'.take line.length = line ∧ buf'[line.length]? = some 0 := by
  obtain ⟨line, rest, good, buf', h1, h2, h3, h4, h5⟩ :=
    fillLineLoop_eq inclEndl (if s.good then s.unread else []) buf 0 0 rfl (List.length_pos_iff.mpr hne)
  rw [List.take_zero] at h1
  have hstore : store buf' line.length 0 = .ok (buf'.set line.length 0) := store_ok (by omega) 0
  refine ⟨line, buf'.set line.length 0, _, readChars_run (congrArg _ h1), ?_, ?_, ?_⟩
  · rw [fillLine, run_bind_of_ok (readChars_run h2)]
    simp only [hstore]
    rfl
  · rw [List.take_set_of_le (Nat.le_refl _), h4]
  · exact List.getElem?_set_self (by omega)

/-! ## Reading data -/

theorem readData_of_nonpos {size : Int} (h : size ≤ 0) : readData size = pure [] := by
  rw [readData, readDataLoop, if_neg (by omega)]

/-- The loop of `read_data` reads the word whose length it is given, block by block. -/
theorem readDataLoop_consumes : ∀ (fuel : Nat) (w data : Bytes), w.length < fuel →
    Consumes (readDataLoop fuel w.length data) w (data ++ w) := by
  intro fuel
  induction fuel with
  | zero => intro w data h; omega
  | succ fuel ih =>
    intro w data h
    rw [readDataLoop]
    by_cases hw : (w.length : Int) > 0
    · rw [if_pos hw]
      have hk : (min (w.length : Int) icapBufferSize).toNat = (w.take icapBufferSize).length := by
        rw [List.length_take]
        omega
      have hdrop : ((w.length : Int) - (w.take icapBufferSize).length) = (w.drop icapBufferSize).length := by
        rw [List.length_take, List.length_drop]
        omega
      have hlt : (w.drop icapBufferSize).length < fuel := by
        rw [List.length_drop]
        simp only [icapBufferSize]
        omega
      have hrest := ih (w.drop icapBufferSize) (data ++ w.take icapBufferSize) hlt
      rw [List.append_assoc, List.take_append_drop] at hrest
      rw [hk]
      refine Consumes.cast ((read_consumes (w.take icapBufferSize)).bind (good_consumes.bind ?_))
        (by rw [List.nil_append, List.take_append_drop])
      rw [hdrop]
      exact hrest
    · rw [if_neg hw]
      have hnil : w = [] := List.eq_nil_of_length_eq_zero (by omega)
      subst hnil
      rw [List.append_nil]
      exact Consumes.pure data

/-- `read_data` reads the word whose length it is given. -/
theorem readData_consumes (w : Bytes) : Consumes (readData w.length) w w := by
  have h := readDataLoop_consumes (w.length + 1) w [] (Nat.lt_succ_self _)
  rwa [List.nil_append] at h

/-- `read( buffer, n )` takes what it returns, at most `n` bytes, and nothing less from a stream that stays good. -/
theorem read_run (n : Nat) (s : Conn) : ∃ b s', (read n).run s = .ok (b, s') ∧ b.length + s'.unread.length = s.unread.length ∧
    b.length ≤ n ∧ (s'.good = true → b.length = n) := by
  unfold read
  by_cases hg : s.good = true
  · by_cases hn : n ≤ s.unread.length
    · refine ⟨s.unread.take n, { s with unread := s.unread.drop n }, by rw [StateT.run, if_pos hg, if_pos hn], ?_, ?_, ?_⟩
      · rw [List.length_take, List.length_drop]
        omega
      · exact List.length_take_le ..
      · intro _
        rw [List.length_take]
        omega
    · exact ⟨s.unread, { s with unread := [], good := false }, by rw [StateT.run, if_pos hg, if_neg hn], by simp, by omega, nofun⟩
  · exact ⟨[], s, by rw [StateT.run, if_neg hg], by simp, Nat.zero_le n, fun h => absurd h hg⟩

/-- The loop of `read_data` returns on every stream; it takes at least what it returns and no more than it is asked for. -/
theorem readDataLoop_run : ∀ (fuel : Nat) (size : Int) (data : Bytes) (s : Conn), size.toNat < fuel →
    ∃ d s', (readDataLoop fuel size data).run s = .ok (d, s') ∧ d.length + s'.unread.length ≤ data.length + s.unread.length ∧
      s.unread.length ≤ s'.unread.length + size.toNat := by
  intro fuel
  induction fuel with
  | zero => intro size data s h; omega
  | succ fuel ih =>
    intro size data s h
    rw [readDataLoop]
    by_cases hs : size > 0
    · rw [if_pos hs]
      obtain ⟨b, s1, h1, h2, h3, h4⟩ := read_run (min size icapBufferSize).toNat s
      have hmin : (min size icapBufferSize).toNat ≤ size.toNat := by omega
      rw [run_bind_of_ok h1, run_bind_of_ok (good_run s1)]
      by_cases hg : s1.good = true
      · have hb := h4 hg
        obtain ⟨d, s2, h5, h6, h7⟩ := ih (size - b.length) (data ++ b) s1 (by simp only [icapBufferSize] at hb; omega)
        rw [List.length_append] at h6
        exact ⟨d, s2, by rw [if_pos hg, h5], by omega, by omega⟩
      · exact ⟨data, s1, by rw [if_neg hg]; rfl, by omega, by omega⟩
    · rw [if_neg hs]
      exact ⟨data, s, rfl, Nat.le_refl _, Nat.le_add_right _ _⟩

/-- `read_data` returns on every stream; it takes at least what it returns and no more than it is asked for. -/
theorem readData_run (size : Int) (s : Conn) : ∃ d s', (readData size).run s = .ok (d, s') ∧
    d.length + s'.unread.length ≤ s.unread.length ∧ s.unread.length ≤ s'.unread.length + size.toNat := by
  obtain ⟨d, s', h1, h2, h3⟩ := readDataLoop_run (size.toNat + 1) size [] s (Nat.lt_succ_self _)
  exact ⟨d, s', h1, by simpa using h2, h3⟩

theorem readData_within (size : Int) : Within Conn.Shrinks (readData size) := by
  intro s
  obtain ⟨d, s', h1, h2, -⟩ := readData_run size s
  exact ⟨d, s', h1, by simp only [Conn.Shrinks]; omega, trivial⟩

theorem readDataLoop_writesNothing : ∀ (fuel : Nat) (size : Int) (data : Bytes),
    Keeps Conn.WritesNothing (readDataLoop fuel size data)
  | 0, _, _ => Keeps.throw _
  | fuel + 1, size, data => by
    rw [readDataLoop]
    split
    · refine Keeps.bind (read_writesNothing _) fun buffer => Keeps.bind good_writesNothing fun isGood => ?_
      split
      · exact readDataLoop_writesNothing fuel _ _
      · exact Keeps.pure _
    · exact Keeps.pure _

theorem readData_writesNothing (size : Int) : Keeps Conn.WritesNothing (readData size) := readDataLoop_writesNothing _ _ _

end BitzServer
