import BitzServer.Icap.HeaderBlock
import BitzServer.Icap.Message

/-!
# Requests on the wire

A well-formed ICAP request as a client writes it: the request line, header lines, one of them `Connection: keep-alive`, an
`Encapsulated` line or none, and the encapsulated message. `read_req_header` parses the header block and stops before the message.
-/

namespace BitzServer

open Feed

/-! ## The grammar -/

/-- The key of a header line. -/
def lineKey (line : Bytes) : Bytes := trim (line.takeWhile (fun c => c ≠ 58))

/-- A header line without an offset list and without a preview. -/
inductive PlainLine where
  | keepAlive (lead trail : Bytes) (blanks : ∀ c ∈ lead ++ trail, isSpace c = true)
  | other (line : Bytes) (key : lineKey line ∉ [bytes "Connection", bytes "Encapsulated", bytes "Preview"])

namespace PlainLine

def text : PlainLine → Bytes
  | keepAlive lead trail _ => bytes "Connection" ++ bytes ":" ++ (lead ++ bytes "keep-alive" ++ trail)
  | other line _ => line

/-- The line asks to keep the connection. -/
def keeps : PlainLine → Bool
  | keepAlive _ _ _ => true
  | other _ _ => false

end PlainLine

/-- The header block of a request. -/
structure RequestHead where
  method : Bytes
  uri : Bytes
  protocol : Bytes
  before : List PlainLine
  encapsulated : Option (List Item)
  after : List PlainLine

namespace RequestHead

def requestLine (r : RequestHead) : Bytes := (bytes " ").intercalate [r.method, r.uri, r.protocol]

/-- The `Encapsulated` line, if there is one. -/
def encapsulatedLine (r : RequestHead) : List Bytes :=
  match r.encapsulated with
  | some items => [bytes "Encapsulated" ++ bytes ":" ++ listText items]
  | none => []

def fieldLines (r : RequestHead) : List Bytes := r.before.map PlainLine.text ++ (r.encapsulatedLine ++ r.after.map PlainLine.text)

def lines (r : RequestHead) : List Bytes := r.requestLine :: r.fieldLines

end RequestHead

/-- A request: the lines are short, the client keeps the connection, and the list describes the message that follows; without a
list, nothing follows. -/
structure WireRequest extends RequestHead where
  message : Message
  tokens : ∀ t ∈ [method, uri, protocol], t ≠ [] ∧ ∀ c ∈ t, isSpace c = false
  short : ∀ l ∈ toRequestHead.lines, (l ≠ [] ∧ l.length ≤ pieceLength - 2) ∧ ∀ c ∈ l, isText c = true
  keeps : ∃ l ∈ before ++ after, l.keeps = true
  described : match encapsulated with
    | some items => (items.map Item.entry).Perm message.entries
    | none => message = ⟨[], [], none⟩
  offsets : message.headers.length < 2 ^ 31

/-- The header block, the empty line and the message. -/
def WireRequest.wire (r : WireRequest) : Bytes := blockLines r.lines ++ crlf ++ r.message.wire

/-! ## Parsing the header block -/

namespace WireRequestAux

open RequestAux EncapsulatedAux

/-- The cut at a line end: the line, and an empty field between `\r` and `\n`. -/
theorem splitOnP_line {l : Bytes} (hl : ∀ c ∈ l, c ≠ cr ∧ c ≠ lf) (rest : Bytes) :
    (l ++ crlf ++ rest).splitOnP (fun c => (bytes "\r\n").contains c) =
      l :: [] :: rest.splitOnP (fun c => (bytes "\r\n").contains c) := by
  have hb : bytes "\r\n" = [cr, lf] := rfl
  have hleft : ∀ c ∈ l, (bytes "\r\n").contains c = false := by
    intro c hc
    rw [hb]
    simp [hl c hc]
  have hcr : (bytes "\r\n").contains cr = true := by decide
  have hlf : (bytes "\r\n").contains lf = true := by decide
  have hform : l ++ crlf ++ rest = l ++ cr :: ([] ++ lf :: rest) := by
    simp [crlf]
  rw [hform, List.splitOnP_append_cons_of_forall_mem hleft cr hcr, List.splitOnP_append_cons_of_forall_mem (by simp) lf hlf]

/-- A block is cut into its lines, with an empty field between `\r` and `\n`, and one at the end. -/
theorem splitOnP_blockLines : ∀ {ls : List Bytes}, (∀ l ∈ ls, ∀ c ∈ l, c ≠ cr ∧ c ≠ lf) →
    (blockLines ls).splitOnP (fun c => (bytes "\r\n").contains c) = ls.flatMap (fun l => [l, []]) ++ [[]]
  | [], _ => rfl
  | l :: ls, h => by
    have hform : blockLines (l :: ls) = l ++ crlf ++ blockLines ls := rfl
    rw [hform, splitOnP_line (h l List.mem_cons_self), splitOnP_blockLines fun l' hl' => h l' (List.mem_cons_of_mem _ hl')]
    rfl

/-- The empty fields of a block are ignored. -/
theorem foldlM_fields (ls : List Bytes) : ∀ h : Header,
    ([] :: (ls.flatMap (fun l => [l, []]) ++ [[]])).foldlM RequestHeader.readHeaderLine h = ls.foldlM RequestHeader.readHeaderLine h := by
  have hempty : ∀ h : Header, RequestHeader.readHeaderLine h [] = .ok h := fun h => rfl
  induction ls with
  | nil => exact fun h => rfl
  | cons l ls ih =>
    intro h
    rw [List.foldlM_cons, hempty, ok_bind, List.flatMap_cons, List.cons_append, List.cons_append, List.foldlM_cons, List.foldlM_cons]
    obtain ⟨h', hh'⟩ := readHeaderLine_total h l
    rw [hh', ok_bind, ok_bind]
    exact ih h'

/-- A line with one `:` is attached. -/
theorem readHeaderLine_field {key value : Bytes} (hkey : ∀ c ∈ key, c ≠ 58) (hvalue : ∀ c ∈ value, c ≠ 58) (h : Header) :
    RequestHeader.readHeaderLine h (key ++ bytes ":" ++ value) = h.attach key value := by
  have hb : bytes ":" = [58] := rfl
  have hcut : (key ++ bytes ":" ++ value).splitOnP (fun c => (bytes ":").contains c) = [key, value] := by
    rw [hb, List.append_assoc, List.singleton_append,
      List.splitOnP_append_cons_of_forall_mem (by simpa using hkey) 58 (by decide),
      List.splitOnP_eq_singleton (by simpa using hvalue)]
  rw [RequestHeader.readHeaderLine, split_eq, hcut]
  rfl

/-- The first field of a line is the part before the first `:`. -/
theorem takeWhile_of_splitOnP {line key : Bytes} {fields : List Bytes} (hcut : line.splitOnP (fun c => (bytes ":").contains c) =
    key :: fields) : line.takeWhile (fun c => c ≠ 58) = key := by
  obtain ⟨fields', hcut'⟩ := Fields.exists_splitOnP_eq (fun c => (bytes ":").contains c) line
  have hsep : (fun c => !(bytes ":").contains c) = fun c : Byte => decide (c ≠ 58) := by
    funext c
    have hb : bytes ":" = [58] := rfl
    simp [hb]
  rw [hcut', hsep] at hcut
  exact (List.cons.inj hcut).1

/-- Reading a plain line lists nothing, sets no preview, and sets the connection if it is the line for it. -/
theorem readHeaderLine_plain (l : PlainLine) (h : Header) : ∃ h', RequestHeader.readHeaderLine h l.text = .ok h' ∧
    h'.encapsulated = h.encapsulated ∧ h'.headers.lookup (bytes "Preview") = h.headers.lookup (bytes "Preview") ∧
    (l.keeps = true ∨ h.headers.lookup (bytes "Connection") = some (bytes "keep-alive") →
      h'.headers.lookup (bytes "Connection") = some (bytes "keep-alive")) := by
  cases l with
  | keepAlive lead trail blanks =>
    have hvalue : ∀ c ∈ lead ++ bytes "keep-alive" ++ trail, c ≠ 58 := by
      intro c hc
      rw [List.mem_append, List.mem_append] at hc
      rcases hc with (hc | hc) | hc
      · exact (blank_chars c (blanks c (by simp [hc]))).2.2
      · revert c
        decide
      · exact (blank_chars c (blanks c (by simp [hc]))).2.2
    have htrim : trim (lead ++ bytes "keep-alive" ++ trail) = bytes "keep-alive" :=
      Fields.trim_padded (fun c hc => blanks c (by simp [hc])) (fun c hc => blanks c (by simp [hc]))
        (Fields.trimmed_of_forall (by decide))
    have hkey : trim (bytes "Connection") = bytes "Connection" := by decide
    rw [PlainLine.text, readHeaderLine_field (by decide) hvalue, Header.attach_of_ne (by decide), hkey, htrim]
    exact ⟨_, rfl, rfl, KeyMap.lookup_set_of_ne _ (by decide) _, fun _ => KeyMap.lookup_set_self _ _ _⟩
  | other line key =>
    have hsame : ∃ h', Except.ok h = (Except.ok h' : Except Fault Header) ∧ h'.encapsulated = h.encapsulated ∧
        h'.headers.lookup (bytes "Preview") = h.headers.lookup (bytes "Preview") ∧
        ((PlainLine.other line key).keeps = true ∨ h.headers.lookup (bytes "Connection") = some (bytes "keep-alive") →
          h'.headers.lookup (bytes "Connection") = some (bytes "keep-alive")) :=
      ⟨h, rfl, rfl, rfl, fun hor => hor.resolve_left (by simp [PlainLine.keeps])⟩
    rw [PlainLine.text, RequestHeader.readHeaderLine, split_eq]
    rcases hcut : line.splitOnP (fun c => (bytes ":").contains c) with _ | ⟨k, _ | ⟨value, _ | ⟨c, l⟩⟩⟩
    · exact hsame
    · exact hsame
    · have hk := takeWhile_of_splitOnP hcut
      rw [lineKey, hk] at key
      simp only [List.mem_cons, List.not_mem_nil, or_false, not_or] at key
      obtain ⟨hconn, henc, hprev⟩ := key
      refine ⟨_, Header.attach_of_ne henc h value, rfl, KeyMap.lookup_set_of_ne _ (Ne.symm hprev) _, fun hor => ?_⟩
      exact (KeyMap.lookup_set_of_ne _ (Ne.symm hconn) _).trans (hor.resolve_left (by simp [PlainLine.keeps]))
    · exact hsame

/-- Reading plain lines. -/
theorem foldlM_plain : ∀ (ls : List PlainLine) (h : Header), ∃ h',
    (ls.map PlainLine.text).foldlM RequestHeader.readHeaderLine h = .ok h' ∧
    h'.encapsulated = h.encapsulated ∧ h'.headers.lookup (bytes "Preview") = h.headers.lookup (bytes "Preview") ∧
    ((∃ l ∈ ls, l.keeps = true) ∨ h.headers.lookup (bytes "Connection") = some (bytes "keep-alive") →
      h'.headers.lookup (bytes "Connection") = some (bytes "keep-alive"))
  | [], h => ⟨h, rfl, rfl, rfl, fun hor => hor.resolve_left (by simp)⟩
  | l :: ls, h => by
    obtain ⟨h1, hrun1, henc1, hprev1, hconn1⟩ := readHeaderLine_plain l h
    obtain ⟨h2, hrun2, henc2, hprev2, hconn2⟩ := foldlM_plain ls h1
    refine ⟨h2, ?_, henc2.trans henc1, hprev2.trans hprev1, fun hor => ?_⟩
    · rw [List.map_cons, List.foldlM_cons, hrun1]
      exact hrun2
    · rcases hor with ⟨l', hl', hkeeps⟩ | hh
      · rcases List.mem_cons.mp hl' with rfl | hl'
        · exact hconn2 (.inr (hconn1 (.inl hkeeps)))
        · exact hconn2 (.inl ⟨l', hl', hkeeps⟩)
      · exact hconn2 (.inr (hconn1 (.inr hh)))

/-- A written list has no colon. -/
theorem colon_not_mem_listText (items : List Item) : ∀ c ∈ listText items, c ≠ 58 := by
  have hitem : ∀ i : Item, ∀ c ∈ i.text, c ≠ 58 := by
    intro i c hc
    have heq : bytes "=" = [61] := rfl
    simp only [Item.text, heq, List.mem_append, List.mem_singleton] at hc
    rcases hc with (((hc | hc) | hc) | hc) | ((hc | hc) | hc)
    · exact (blank_chars c (i.blanks c (by simp [hc]))).2.2
    · exact (name_chars i.entity c hc).2.2.2
    · exact (blank_chars c (i.blanks c (by simp [hc]))).2.2
    · subst hc
      decide
    · exact (blank_chars c (i.blanks c (by simp [hc]))).2.2
    · exact (digit_chars c (i.digits_dec c hc)).2.2.2
    · exact (blank_chars c (i.blanks c (by simp [hc]))).2.2
  have hcomma : bytes "," = [44] := rfl
  intro c hc
  rcases items with _ | ⟨i, items⟩
  · exact absurd hc (by simp [listText])
  · rw [listText, List.map_cons, Fields.intercalate_cons_eq, List.mem_append, List.mem_flatMap] at hc
    rcases hc with hc | ⟨t, ht, hc⟩
    · exact hitem i c hc
    · obtain ⟨j, -, rfl⟩ := List.mem_map.mp ht
      rw [hcomma, List.singleton_append, List.mem_cons] at hc
      rcases hc with rfl | hc
      · decide
      · exact hitem j c hc

/-- Setting entries keeps the plain headers. -/
theorem setEntries_headers (l : List (Entity × Int)) : ∀ h : Header, (h.setEntries l).headers = h.headers := by
  induction l with
  | nil => exact fun h => rfl
  | cons x l ih => exact fun h => ih (h.setEncapsulated x.1 x.2)

/-- The request line is cut into its three tokens. -/
theorem readRequestLine_tokens {method uri protocol : Bytes}
    (htokens : ∀ t ∈ [method, uri, protocol], t ≠ [] ∧ ∀ c ∈ t, isSpace c = false) (request : RequestLine) :
    RequestHeader.readRequestLine request ((bytes " ").intercalate [method, uri, protocol]) = .ok ⟨method, uri, protocol⟩ := by
  have hb : bytes " " = [32] := rfl
  obtain ⟨hm, hmc⟩ := htokens method (by simp)
  obtain ⟨hp, hpc⟩ := htokens protocol (by simp)
  have hform : (bytes " ").intercalate [method, uri, protocol] = method ++ ([32] ++ uri ++ [32]) ++ protocol := by
    rw [Fields.intercalate_cons_eq, hb]
    simp
  have htrim : trim ((bytes " ").intercalate [method, uri, protocol]) = (bytes " ").intercalate [method, uri, protocol] := by
    rw [hform, trim_eq]
    refine Fields.trim_eq_self ⟨fun c hc => hmc c ?_, fun c hc => hpc c ?_⟩
    · rw [List.append_assoc, List.head?_append_of_ne_nil _ hm] at hc
      exact List.mem_of_mem_head? hc
    · rw [List.getLast?_append_of_ne_nil _ hp] at hc
      exact List.mem_of_mem_getLast? hc
  have hcut : ((bytes " ").intercalate [method, uri, protocol]).splitOnP (fun c => (bytes " ").contains c) =
      [method, uri, protocol] := by
    rw [hb]
    refine Fields.splitOnP_intercalate (by decide) (List.cons_ne_nil _ _) fun t ht c hc => ?_
    have hspace := (htokens t ht).2 c hc
    have hne : c ≠ 32 := by
      rintro rfl
      exact absurd hspace (by decide)
    simpa using hne
  rw [RequestHeader.readRequestLine, htrim, split_eq, hcut]
  rfl

/-- What the `Encapsulated` line makes of a header that lists nothing: it lists the entries of the message, or still nothing. -/
theorem foldlM_encapsulatedLine (r : WireRequest) {h : Header} (hfresh : ∀ e, h.encapsulated e = -1) : ∃ h',
    r.encapsulatedLine.foldlM RequestHeader.readHeaderLine h = .ok h' ∧ h'.headers = h.headers ∧
    ((∃ items, r.encapsulated = some items) → h'.Lists r.message.entries) ∧
    (r.encapsulated = none → ∀ e, h'.encapsulated e = -1) := by
  have hdescribed := r.described
  unfold RequestHead.encapsulatedLine
  rcases hitems : r.encapsulated with _ | items
  · exact ⟨h, rfl, rfl, nofun, fun _ => hfresh⟩
  · rw [hitems] at hdescribed
    obtain ⟨hattach, hlists⟩ := attachEncapsulated_entries hdescribed r.offsets (h := h) (fun e => by rw [hfresh]; decide)
    have hkey : trim (bytes "Encapsulated") = bytes "Encapsulated" := by decide
    refine ⟨_, ?_, setEntries_headers _ h, fun _ => hlists, nofun⟩
    show (List.foldlM RequestHeader.readHeaderLine h [_] : Except Fault Header) = _
    rw [List.foldlM_cons, readHeaderLine_field (by decide) (colon_not_mem_listText items), Header.attach]
    simp only [hkey, if_true, attachEncapsulated_trim, hattach]
    rfl

end WireRequestAux

open WireRequestAux RequestAux

/-- What the parser makes of the header block of a request. -/
structure WireRequest.Parsed (r : WireRequest) (h : RequestHeader) : Prop where
  method : h.request.method = r.method
  rawData : h.rawData = blockLines r.lines
  connection : h.value (bytes "Connection") = bytes "keep-alive"
  preview : h.value (bytes "Preview") = []
  lists : (∃ items, r.encapsulated = some items) → h.Lists r.message.entries
  listsNothing : r.encapsulated = none → ∀ e, h.encapsulated e = -1

/-- The header block of a request is parsed. -/
theorem WireRequest.new_lines (r : WireRequest) : ∃ h, RequestHeader.new (blockLines r.lines) = .ok h ∧ r.Parsed h := by
  obtain ⟨h1, hrun1, henc1, hprev1, hconn1⟩ := foldlM_plain r.before Header.new
  obtain ⟨h2, hrun2, hhead2, hlists2, hnone2⟩ := foldlM_encapsulatedLine r (h := h1) (fun e => by rw [henc1]; rfl)
  obtain ⟨h3, hrun3, henc3, hprev3, hconn3⟩ := foldlM_plain r.after h2
  have hlines : r.fieldLines.foldlM RequestHeader.readHeaderLine Header.new = .ok h3 := by
    rw [RequestHead.fieldLines, List.foldlM_append, hrun1, ok_bind, List.foldlM_append, hrun2, ok_bind, hrun3]
  have hcut : (blockLines r.lines).splitOnP (fun c => (bytes "\r\n").contains c) =
      r.requestLine :: [] :: (r.fieldLines.flatMap (fun l => [l, []]) ++ [[]]) :=
    splitOnP_blockLines fun l hl c hc => (isPositive_of_isText ((r.short l hl).2 c hc)).2
  have hnew := new_of_parts hcut (readRequestLine_tokens r.tokens _) ((foldlM_fields r.fieldLines Header.new).trans hlines)
  have hconn : h3.headers.lookup (bytes "Connection") = some (bytes "keep-alive") := by
    obtain ⟨l, hl, hkeeps⟩ := r.keeps
    rcases List.mem_append.mp hl with hl | hl
    · refine hconn3 (.inr ?_)
      rw [hhead2]
      exact hconn1 (.inl ⟨l, hl, hkeeps⟩)
    · exact hconn3 (.inl ⟨l, hl, hkeeps⟩)
  have hprev : h3.headers.lookup (bytes "Preview") = none := by
    rw [hprev3, hhead2, hprev1]
    rfl
  refine ⟨_, hnew, rfl, rfl, ?_, ?_, fun hitems => ?_, fun hnone e => ?_⟩
  · show (h3.headers.lookup (bytes "Connection")).getD [] = _
    rw [hconn]
    rfl
  · show (h3.headers.lookup (bytes "Preview")).getD [] = _
    rw [hprev]
    rfl
  · intro x
    rw [hlists2 hitems x]
    show _ ↔ h3.encapsulated x.1 = x.2 ∧ 0 ≤ x.2
    rw [henc3]
  · show h3.encapsulated e = -1
    rw [henc3]
    exact hnone2 hnone e

/-- `read_req_header` reads the header block of a request and leaves the stream before the message. -/
theorem WireRequest.readReqHeader_wire (r : WireRequest) {s : Conn} {tail : Bytes} (hg : s.good = true)
    (hu : s.unread = r.wire ++ tail) : ∃ h, readReqHeader.run s = .ok (h, { s with unread := r.message.wire ++ tail }) ∧
      r.Parsed h := by
  rw [WireRequest.wire, List.append_assoc] at hu
  obtain ⟨h, s', hrun, hfit, -⟩ := readReqHeader_block (fun l hl c hc => isLineChar_of_isText ((r.short l hl).2 c hc)) hg hu
  obtain ⟨hnew, rfl⟩ := hfit (linesFit_of_short fun l hl => (r.short l hl).1)
  obtain ⟨h', hnew', hparsed⟩ := r.new_lines
  rw [hnew] at hnew'
  obtain rfl := Except.ok.inj hnew'
  exact ⟨h, hrun, hparsed⟩

end BitzServer
