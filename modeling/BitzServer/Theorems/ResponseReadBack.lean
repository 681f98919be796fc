import BitzServer.Icap.Message
import BitzServer.Icap.HeaderBlock
import BitzServer.Icap.WireRequest
import BitzServer.Theorems.ChunkedRoundTrip
import BitzServer.Theorems.EncapsulatedResponse
import BitzServer.Theorems.HeaderMap

/-!
# Responses, there and back

What `send_response` writes is read by the readers of the library: `read_req_header` reads the headers and the offsets, and `read_req_data`
the sections. A header whose value has a colon is lost, as in a request.
-/

namespace BitzServer

open Feed

/-- A header as `send_headers` writes it. -/
def fieldText (field : Bytes × Bytes) : Bytes := field.1 ++ bytes ": " ++ field.2

/-- The lines of the head of a response. -/
def responseLines (header : ResponseHeader) : List Bytes :=
  statusLine header :: (header.headers.map fieldText ++ [bytes "Encapsulated: " ++ header.encapsulatedStr])

/-- The body of a payload in one chunk. -/
def bodyChunks (p : Payload) : Option (BodyKind × ChunkedBody) :=
  if p.reqBody ≠ [] then some (.req, ChunkedBody.ofData p.reqBody)
  else if p.resBody ≠ [] then some (.res, ChunkedBody.ofData p.resBody)
  else none

/-- The message that a response encapsulates. -/
def messageOf (p : Payload) : Message := { reqHeader := p.reqHeader, resHeader := p.resHeader, body := bodyChunks p }

/-- The head can be read: its lines are short texts, its headers are the trimmed ones of a dictionary, and no key has a colon. -/
structure ReadableHead (header : ResponseHeader) : Prop where
  lines : ∀ l ∈ responseLines header, (l ≠ [] ∧ l.length ≤ pieceLength - 2) ∧ ∀ c ∈ l, isText c = true
  holds : ∃ d, header.Holds d
  keys : ∀ field ∈ header.headers, 58 ∉ field.1

/-- The payload can be read: at most one body, of one chunk, behind a header section of its own side, where the offsets are right. -/
structure ReadablePayload (p : Payload) : Prop where
  one : p.reqBody = [] ∨ p.resBody = []
  order : p.reqBody ≠ [] → p.resHeader = []
  bodyTest : BodyTestHolds p
  bodies : p.reqBody.length ≤ icapBufferSize ∧ p.resBody.length ≤ icapBufferSize
  sections : p.reqHeader.length + p.resHeader.length < 2 ^ 30

namespace ReadBackAux

open RequestAux WireRequestAux EncapsulatedAux EncapsulatedResponseAux HeaderMapAux RoundTripAux

theorem headBytes_eq (header : ResponseHeader) : headBytes header = blockLines (responseLines header) ++ crlf := by
  simp [headBytes, responseLines, blockLines, fieldText, List.flatMap_map]

/-! ## The headers -/

/-- A header comes back unless its value has a colon. -/
theorem pairOf_fieldText {field : Bytes × Bytes} (hkey : 58 ∉ field.1) (htrim : trim field.1 = field.1 ∧ trim field.2 = field.2) :
    pairOf (bytes ":") (fieldText field) = if 58 ∈ field.2 then none else some field := by
  have hb : bytes ":" = [58] := rfl
  have hsep : bytes ": " = [58, 32] := rfl
  have hleft : ∀ c ∈ field.1, ([58] : Bytes).contains c = false := by
    intro c hc
    have hne : c ≠ 58 := fun h => hkey (h ▸ hc)
    simpa using hne
  have hform : fieldText field = field.1 ++ 58 :: (32 :: field.2) := by
    rw [fieldText, hsep]
    simp
  rw [pairOf, hb, hform, List.splitOnP_append_cons_of_forall_mem hleft 58 rfl, List.map_cons, htrim.1]
  by_cases hcolon : 58 ∈ field.2
  · have hlen := Fields.two_le_length_splitOnP (p := fun c => ([58] : Bytes).contains c) rfl (List.mem_cons_of_mem 32 hcolon)
    rw [if_pos hcolon]
    rcases hcut : (32 :: field.2).splitOnP (fun c => ([58] : Bytes).contains c) with _ | ⟨x, _ | ⟨y, l⟩⟩
    · rw [hcut] at hlen
      exact absurd hlen (by simp)
    · rw [hcut] at hlen
      exact absurd hlen (by simp)
    · rfl
  · have hright : ∀ c ∈ (32 : Byte) :: field.2, ([58] : Bytes).contains c = false := by
      intro c hc
      rcases List.mem_cons.mp hc with rfl | hc
      · rfl
      · have hne : c ≠ 58 := fun h => hcolon (h ▸ hc)
        simpa using hne
    have hblank : trim (32 :: field.2) = field.2 := by
      have hspace : ∀ c ∈ [(32 : Byte)], isSpace c = true := by simp [isSpace]
      have happend : trim ([32] ++ field.2) = trim field.2 := Fields.trim_blanks_append hspace field.2
      exact happend.trans htrim.2
    rw [if_neg hcolon, List.splitOnP_eq_singleton hright, List.map_singleton, hblank]

theorem fieldsOf_fieldText {fields : List (Bytes × Bytes)} (hkeys : ∀ f ∈ fields, 58 ∉ f.1)
    (htrim : ∀ f ∈ fields, trim f.1 = f.1 ∧ trim f.2 = f.2) : fieldsOf (fields.map fieldText) = fields.filter (fun f => 58 ∉ f.2) := by
  induction fields with
  | nil => rfl
  | cons f fields ih =>
    have ih := ih (fun g hg => hkeys g (List.mem_cons_of_mem _ hg)) fun g hg => htrim g (List.mem_cons_of_mem _ hg)
    rw [fieldsOf] at ih ⊢
    rw [List.map_cons, List.filterMap_cons, pairOf_fieldText (hkeys f List.mem_cons_self) (htrim f List.mem_cons_self), ih]
    by_cases hcolon : 58 ∈ f.2
    · rw [if_pos hcolon, List.filter_cons_of_neg (by simpa using hcolon)]
    · rw [if_neg hcolon, List.filter_cons_of_pos (by simpa using hcolon)]

/-- The headers of a dictionary come back in their order. -/
theorem foldlM_fieldText {h : Header} {d : Bytes → Option Bytes} (hh : h.Holds d) (hkeys : ∀ f ∈ h.headers, 58 ∉ f.1) :
    ∃ h', (h.headers.map fieldText).foldlM RequestHeader.readHeaderLine Header.new = .ok h' ∧
      h'.headers = h.headers.filter (fun f => 58 ∉ f.2) ∧ ∀ e, h'.encapsulated e = -1 := by
  have hfields := fieldsOf_fieldText hkeys hh.trimmed
  have hsub : ∀ f ∈ h.headers.filter (fun f => 58 ∉ f.2), f ∈ h.headers := fun f hf => List.mem_of_mem_filter hf
  have htrim : ∀ f ∈ h.headers.filter (fun f => 58 ∉ f.2), trim f.1 = f.1 ∧ trim f.2 = f.2 := fun f hf => hh.trimmed f (hsub f hf)
  have hsorted : KeyMap.Sorted (h.headers.filter (fun f => 58 ∉ f.2)) := List.Pairwise.filter _ hh.sorted
  obtain ⟨h', hrun, hh'⟩ := holds_calls ((fieldsOf (h.headers.map fieldText)).map fun f => HeaderCall.attach f.1 f.2) holds_new
  refine ⟨h', (foldlM_readHeaderLine _ _).trans hrun, ?_, fun e => ?_⟩
  · rw [hfields] at hh'
    refine KeyMap.Sorted.ext hh'.sorted hsorted fun key => ?_
    rw [hh'.lookup key, define_fields key _ _ htrim, Option.or_none, hsorted.lookup_reverse]
    split
    case isTrue hkey =>
      exact (KeyMap.lookup_eq_none fun f hf heq => hh.plain f (hsub f hf) (heq.trans hkey)).symm
    case isFalse => rfl
  · rw [hfields] at hrun
    rw [attach_offsets _ htrim hrun, List.filter_eq_nil_iff.mpr fun f hf => by simpa using hh.plain f (hsub f hf)]
    rfl

/-! ## The list of offsets -/

/-- An entry as an item of a list. -/
def entryItem (lead : Bytes) (hlead : ∀ c ∈ lead, isSpace c = true) (x : Entity × Int) : Item where
  entity := x.1
  digits := itoa x.2.toNat
  lead := lead
  beforeEq := []
  afterEq := []
  trail := []
  digits_ne := by
    rw [itoa, if_neg (by omega)]
    simp [Numeral.numeral_ne_nil]
  digits_dec := by
    intro c hc
    rw [itoa, if_neg (by omega)] at hc
    exact isDigit_of_mem_numeral hc
  blanks := by simpa using hlead

theorem entry_entryItem (lead : Bytes) (hlead : ∀ c ∈ lead, isSpace c = true) {x : Entity × Int} (hx : 0 ≤ x.2) :
    (entryItem lead hlead x).entry = x := by
  have hvalue : decValue (itoa x.2.toNat) = x.2.toNat := by
    rw [itoa, if_neg (by omega), List.nil_append, Int.natAbs_natCast, decValue_numeral]
  refine Prod.ext rfl ?_
  show ((decValue (itoa x.2.toNat) : Nat) : Int) = x.2
  rw [hvalue]
  omega

theorem text_entryItem (lead : Bytes) (hlead : ∀ c ∈ lead, isSpace c = true) {x : Entity × Int} (hx : 0 ≤ x.2) :
    (entryItem lead hlead x).text = lead ++ entryText x := by
  have hdigits : (entryItem lead hlead x).digits = itoa x.2 := congrArg itoa (Int.toNat_of_nonneg hx)
  rw [Item.text, hdigits, entryText]
  simp [entryItem]

theorem blank_space : ∀ c ∈ [(32 : Byte)], isSpace c = true := by simp [isSpace]

/-- The items of a printed list. -/
def printedItemsOf : List (Entity × Int) → List Item
  | [] => []
  | x :: l => entryItem [] (by simp) x :: l.map (entryItem [32] blank_space)

theorem entries_printedItemsOf {l : List (Entity × Int)} (hnn : ∀ x ∈ l, 0 ≤ x.2) : (printedItemsOf l).map Item.entry = l := by
  cases l with
  | nil => rfl
  | cons x l =>
    rw [printedItemsOf, List.map_cons, List.map_map, entry_entryItem _ _ (hnn x List.mem_cons_self)]
    refine congrArg _ ((List.map_congr_left fun y hy => ?_).trans (List.map_id l))
    exact entry_entryItem _ _ (hnn y (List.mem_cons_of_mem _ hy))

theorem listText_printedItemsOf {l : List (Entity × Int)} (hnn : ∀ x ∈ l, 0 ≤ x.2) : listText (printedItemsOf l) = renderEntries l := by
  have hcomma : bytes ", " = bytes "," ++ [32] := rfl
  cases l with
  | nil => rfl
  | cons x l =>
    rw [listText, renderEntries, printedItemsOf, List.map_cons, List.map_cons, Fields.intercalate_cons_eq, Fields.intercalate_cons_eq,
      text_entryItem _ _ (hnn x List.mem_cons_self), List.nil_append, List.map_map, List.flatMap_map, List.flatMap_map]
    refine congrArg _ (List.flatMap_congr fun y hy => ?_)
    rw [Function.comp, text_entryItem _ _ (hnn y (List.mem_cons_of_mem _ hy)), hcomma, List.append_assoc]

/-! ## The payload -/

theorem wire_ofData {data : Bytes} (hshort : data.length ≤ icapBufferSize) (hne : data ≠ []) :
    (ChunkedBody.ofData data).wire = chunkedWire data := by
  rw [chunkedWire_short hshort, ChunkedBody.wire, ChunkedBody.ending, ChunkedBody.ofData]
  simp only [dif_neg hne, ChunkedBody.trailerWire, DataChunk.wire, text_ofNat, List.flatMap_singleton, List.flatMap_nil, List.nil_append,
    List.append_assoc]
  rfl

theorem content_ofData {data : Bytes} (hne : data ≠ []) : (ChunkedBody.ofData data).content = data := by
  rw [ChunkedBody.content, ChunkedBody.ofData]
  simp only [dif_neg hne, List.flatMap_singleton]

theorem leftover_ofData {data : Bytes} (hshort : data.length ≤ icapBufferSize) (hne : data ≠ []) :
    (ChunkedBody.ofData data).Small ∧ (ChunkedBody.ofData data).leftover = [] := by
  have hsmall : (ChunkedBody.ofData data).Small := by
    intro c hc
    rw [ChunkedBody.ofData] at hc
    simp only [dif_neg hne, List.mem_singleton] at hc
    subst hc
    show data.length < 2 ^ 31
    simp only [icapBufferSize] at hshort
    omega
  exact ⟨hsmall, (ChunkedBody.leftover_eq_nil_iff _).mpr ⟨hsmall, rfl⟩⟩

variable {p : Payload}

/-- The entries of the message are those that the payload sets. -/
theorem entries_messageOf (hp : ReadablePayload p) : (messageOf p).entries = entriesOf p := by
  have hentity : (messageOf p).bodyEntity = bodyOf p := by
    unfold Message.bodyEntity messageOf bodyChunks bodyOf
    dsimp only
    by_cases hb : p.reqBody = []
    · by_cases hd : p.resBody = []
      · rw [if_neg (not_not_intro hb), if_neg (not_not_intro hd), if_neg (not_not_intro hb), if_neg (not_not_intro hd)]
      · rw [if_neg (not_not_intro hb), if_pos hd, if_neg (not_not_intro hb), if_pos hd]
        rfl
    · rw [if_pos hb, if_pos hb]
      rfl
  rw [entriesOf_eq hp.one hp.order hp.bodyTest, Message.entries, hentity, headerEntries, bodyEntry, Message.headers, List.length_append,
    List.append_assoc]
  rfl

/-- The message is what is written, and what is read of it is the payload. -/
theorem messageOf_spec (hp : ReadablePayload p) : (messageOf p).wire = (contentWrites p).flatMap Prod.snd ∧
    (messageOf p).payload = { p with ieof := false } ∧ (messageOf p).leftover = [] ∧ ∀ b ∈ (messageOf p).body, b.2.Small := by
  have hsection : ∀ (e : Entity) (content w : Bytes), (content = [] → w = []) →
      (if content ≠ [] then [(e, w)] else []).flatMap Prod.snd = w := by
    intro e content w hw
    by_cases hc : content = []
    · rw [if_neg (not_not_intro hc), hw hc]
      rfl
    · rw [if_pos hc]
      simp
  have hwrites : (contentWrites p).flatMap Prod.snd = p.reqHeader ++ ((if p.reqBody ≠ [] then chunkedWire p.reqBody else []) ++
      (p.resHeader ++ if p.resBody ≠ [] then chunkedWire p.resBody else [])) := by
    have hbody : ∀ (e : Entity) (content : Bytes), (if content ≠ [] then [(e, chunkedWire content)] else []).flatMap Prod.snd =
        if content ≠ [] then chunkedWire content else [] := by
      intro e content
      split
      · simp
      · rfl
    rw [contentWrites, List.flatMap_append, List.flatMap_append, List.flatMap_append, hsection _ _ _ id, hsection _ _ _ id, hbody, hbody]
  obtain ⟨hreq, hres⟩ := hp.bodies
  rw [hwrites]
  by_cases hb : p.reqBody = []
  · by_cases hd : p.resBody = []
    · have hbody : bodyChunks p = none := by rw [bodyChunks, if_neg (not_not_intro hb), if_neg (not_not_intro hd)]
      simp only [messageOf, hbody, Message.wire, Message.headers, Message.payload, Message.leftover, Message.headerPayload, hb, hd]
      refine ⟨by simp, ?_, trivial, fun _ hb => ?_⟩
      · rw [Payload.empty]
      · cases hb
    · have hbody : bodyChunks p = some (.res, ChunkedBody.ofData p.resBody) := by
        rw [bodyChunks, if_neg (not_not_intro hb), if_pos hd]
      obtain ⟨hsmall, hleft⟩ := leftover_ofData hres hd
      simp only [messageOf, hbody, Message.wire, Message.headers, Message.payload, Message.leftover, Message.headerPayload,
        wire_ofData hres hd, content_ofData hd, hleft]
      refine ⟨by simp [hb, hd], ?_, trivial, ?_⟩
      · rw [Payload.empty, ← hb]
        rfl
      · rintro b ⟨⟩
        exact hsmall
  · have hc : p.resHeader = [] := hp.order hb
    have hd : p.resBody = [] := hp.one.resolve_left hb
    have hbody : bodyChunks p = some (.req, ChunkedBody.ofData p.reqBody) := by rw [bodyChunks, if_pos hb]
    obtain ⟨hsmall, hleft⟩ := leftover_ofData hreq hb
    simp only [messageOf, hbody, Message.wire, Message.headers, Message.payload, Message.leftover, Message.headerPayload,
      wire_ofData hreq hb, content_ofData hb, hleft]
    refine ⟨by simp [hb, hc, hd], ?_, trivial, ?_⟩
    · rw [Payload.empty, ← hd]
      rfl
    · rintro b ⟨⟩
      exact hsmall

/-- The `Encapsulated` line is read as the entries that it prints. -/
theorem readHeaderLine_encapsulated (hp : ReadablePayload p) {h : Header} (hfresh : ∀ e, h.encapsulated e = -1) : ∃ h',
    RequestHeader.readHeaderLine h (bytes "Encapsulated: " ++ renderEntries (entriesOf p)) = .ok h' ∧ h'.headers = h.headers ∧
      h'.Lists (messageOf p).entries := by
  have hnn : ∀ x ∈ entriesOf p, 0 ≤ x.2 := (entriesOf_sorted p).2.2.1
  have hitems : ((printedItemsOf (entriesOf p)).map Item.entry).Perm (messageOf p).entries := by
    rw [entries_printedItemsOf hnn, entries_messageOf hp]
  have hlt : (messageOf p).headers.length < 2 ^ 31 := by
    rw [Message.headers, List.length_append]
    have := hp.sections
    show p.reqHeader.length + p.resHeader.length < 2 ^ 31
    omega
  obtain ⟨hattach, hlists⟩ := attachEncapsulated_entries hitems hlt (h := h) (fun e => by rw [hfresh]; decide)
  have hsep : bytes "Encapsulated: " = bytes "Encapsulated" ++ bytes ":" ++ [32] := rfl
  have hvalue : ∀ c ∈ [32] ++ listText (printedItemsOf (entriesOf p)), c ≠ 58 := by
    intro c hc
    rcases List.mem_append.mp hc with hc | hc
    · rw [List.mem_singleton.mp hc]
      decide
    · exact colon_not_mem_listText _ c hc
  have hblank : trim ([32] ++ listText (printedItemsOf (entriesOf p))) = trim (listText (printedItemsOf (entriesOf p))) :=
    Fields.trim_blanks_append blank_space _
  have hkey : trim (bytes "Encapsulated") = bytes "Encapsulated" := by decide
  refine ⟨_, ?_, setEntries_headers _ h, hlists⟩
  rw [← listText_printedItemsOf hnn, hsep, List.append_assoc, readHeaderLine_field (by decide) hvalue, Header.attach]
  dsimp only
  rw [if_pos hkey, hblank, attachEncapsulated_trim, hattach]
  rfl

/-- The head of a response is parsed. -/
theorem new_responseLines (hp : ReadablePayload p) {header : ResponseHeader} (hheader : ReadableHead header)
    (hstr : header.encapsulatedStr = renderEntries (entriesOf p)) : ∃ h, RequestHeader.new (blockLines (responseLines header)) = .ok h ∧
      h.headers = header.headers.filter (fun f => 58 ∉ f.2) ∧ h.Lists (messageOf p).entries := by
  obtain ⟨d, hholds⟩ := hheader.holds
  obtain ⟨h₁, hrun₁, hheaders₁, hfresh₁⟩ := foldlM_fieldText hholds hheader.keys
  obtain ⟨h₂, hrun₂, hheaders₂, hlists⟩ := readHeaderLine_encapsulated hp hfresh₁
  obtain ⟨r, hr⟩ := readRequestLine_total { method := [], uri := [], protocol := bytes "ICAP/1.0" } (statusLine header)
  have hfields : (header.headers.map fieldText ++ [bytes "Encapsulated: " ++ header.encapsulatedStr]).foldlM RequestHeader.readHeaderLine
      Header.new = .ok h₂ := by
    rw [List.foldlM_append, hrun₁, ok_bind, hstr, List.foldlM_cons, hrun₂, ok_bind]
    rfl
  have hcut : (blockLines (responseLines header)).splitOnP (fun c => (bytes "\r\n").contains c) = statusLine header ::
      [] :: ((header.headers.map fieldText ++ [bytes "Encapsulated: " ++ header.encapsulatedStr]).flatMap (fun l => [l, []]) ++ [[]]) :=
    splitOnP_blockLines fun l hl c hc => (isPositive_of_isText ((hheader.lines l hl).2 c hc)).2
  exact ⟨_, new_of_parts hcut hr ((foldlM_fields _ Header.new).trans hfields), hheaders₂.trans hheaders₁, hlists⟩

/-- The bytes that are written for a payload that has been set once. -/
def responseWire (r : Response) (p : Payload) : Bytes :=
  headBytes (r.setPayload p).header ++ (contentWrites p).flatMap Prod.snd

theorem sendResponse_wire {r : Response} (hp : ReadablePayload p) {s : Conn} (hg : s.good = true) (hf : s.faults = []) :
    (sendResponse (r.setPayload p)).run s =
      .ok (true, { s with sent := s.sent ++ responseWire r p, flushed := s.sent ++ responseWire r p }) := by
  obtain ⟨hreq, hres⟩ := hp.bodies
  simp only [icapBufferSize] at hreq hres
  exact sendResponse_run (r.setPayload p) (by show p.reqBody.length < _; omega) (by show p.resBody.length < _; omega) hg hf

/-- What is written is read up to its end. -/
theorem read_responseWire {r : Response} (hfresh : ∀ e, r.header.encapsulated e = -1) (hp : ReadablePayload p)
    (hheader : ReadableHead (r.setPayload p).header) {t : Conn} {rest : Bytes} (hg : t.good = true)
    (hu : t.unread = responseWire r p ++ rest) : ∃ h t' request, readReqHeader.run t = .ok (h, t') ∧
      h.headers = (r.setPayload p).header.headers.filter (fun f => 58 ∉ f.2) ∧
      (readReqData (Request.new h)).run t' = .ok ((request, true), { t with unread := rest }) ∧
      request.payload = { p with ieof := false } := by
  obtain ⟨hreq, hres⟩ := hp.bodies
  have hsections := hp.sections
  simp only [icapBufferSize] at hreq hres
  have hstr := encapsulatedStr_setPayload hfresh (p := p) (by omega)
  obtain ⟨hwire, hpayload, hleft, hsmall⟩ := messageOf_spec hp
  have hunread : t.unread = blockLines (responseLines (r.setPayload p).header) ++ crlf ++ ((messageOf p).wire ++ rest) := by
    rw [hu, responseWire, headBytes_eq, hwire, List.append_assoc]
  obtain ⟨h, hnew, hheaders, hlists⟩ := new_responseLines hp hheader hstr
  obtain ⟨h', t', hrun, hfit, -⟩ := readReqHeader_block
    (fun l hl c hc => isLineChar_of_isText ((hheader.lines l hl).2 c hc)) hg hunread
  obtain ⟨hnew', rfl⟩ := hfit (linesFit_of_short fun l hl => (hheader.lines l hl).1)
  obtain rfl := Except.ok.inj (hnew'.symm.trans hnew)
  obtain ⟨taken, p', htaken, hread, hp'⟩ := readReqData_message (messageOf p) (Request.new h') hlists
  obtain rfl := hp' hsmall
  rw [hleft, List.append_nil] at htaken
  exact ⟨h', _, _, hrun, hheaders, hread { t with unread := (messageOf p).wire ++ rest } rest hg (by rw [htaken]; rfl), hpayload⟩

end ReadBackAux

open RequestAux EncapsulatedResponseAux ReadBackAux

end BitzServer
