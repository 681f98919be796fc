import BitzServer.Icap.Message

/-!
# Reading the data of a request

`read_req_data` splits a request into its sections, and `read_req_continue_data` appends what follows a preview. Between the two,
the payload that is set on the request rewrites the entries that the second one looks at.
-/

namespace BitzServer

open Feed MessageAux EncapsulatedAux

/-! ## Splitting a request -/

/-- `read_req_data` splits a request exactly: header sections and a body in chunks without trailers or no body, listed in any
order. It sets the payload that the message stands for and leaves the stream behind the message. -/
theorem readReqData_splits {m : Message} (hkind : ∀ b ∈ m.body, b.1 ≠ .opt) (hsmall : ∀ b ∈ m.body, b.2.Small)
    (htrailers : ∀ b ∈ m.body, b.2.trailers = []) (hlt : m.headers.length < 2 ^ 31) {items : List Item}
    (hitems : (items.map Item.entry).Perm m.entries) (h₀ : RequestHeader) (hfresh : ∀ e, h₀.encapsulated e = -1) :
    ∃ h : Header, h₀.attachEncapsulated (listText items) = .ok (h, true) ∧
      ∀ (s : Conn) (rest : Bytes), s.good = true → s.unread = m.wire ++ rest → ∃ request : Request,
        (readReqData (Request.new { h₀ with toHeader := h })).run s = .ok ((request, true), { s with unread := rest }) ∧
        request.payload = m.payload := by
  obtain ⟨hattach, hl⟩ := attachEncapsulated_entries hitems hlt (h := h₀.toHeader) (fun e => by rw [hfresh]; decide)
  obtain ⟨taken, p, hwire, hread, hp⟩ :=
    readReqData_message m (Request.new { h₀ with toHeader := h₀.setEntries (items.map Item.entry) }) hl
  have hleft : m.leftover = [] := by
    unfold Message.leftover
    rcases hb : m.body with _ | ⟨kind, B⟩
    · rfl
    · have hB : B.leftover = [] := B.leftover_eq_nil_iff.mpr ⟨hsmall _ hb, htrailers _ hb⟩
      cases kind with
      | opt => exact absurd rfl (hkind _ hb)
      | req | res => exact hB
  rw [hleft, List.append_nil] at hwire
  rw [hwire]
  exact ⟨_, hattach, fun s rest hg hs => ⟨_, hread s rest hg hs, hp hsmall⟩⟩

/-- A request with a header section and a body is split, listed with the body first and with blanks. -/
theorem readReqData_splits_reqBody : ∃ h : Header,
    Header.new.attachEncapsulated (bytes " req-body=03 ,\treq-hdr = 0") = .ok (h, true) ∧
      ∀ (s : Conn) (rest : Bytes), s.good = true → s.unread = bytes "GET2\r\nab\r\n0\r\n\r\n" ++ rest → ∃ request : Request,
        (readReqData (Request.new { h with request := ⟨[], [], []⟩, rawData := [] })).run s =
          .ok ((request, true), { s with unread := rest }) ∧
        request.payload = { Payload.empty with reqHeader := bytes "GET", reqBody := bytes "ab" } := by
  let m : Message := { reqHeader := bytes "GET", resHeader := [], body := some (.req, ChunkedBody.ofData (bytes "ab")) }
  let body : Item := { entity := .reqBody, digits := bytes "03", lead := bytes " ", beforeEq := [], afterEq := [],
                       trail := bytes " ", digits_ne := by decide, digits_dec := by decide, blanks := by decide }
  let hdr : Item := { entity := .reqHdr, digits := bytes "0", lead := bytes "\t", beforeEq := bytes " ", afterEq := bytes " ",
                      trail := [], digits_ne := by decide, digits_dec := by decide, blanks := by decide }
  have hkind : ∀ b ∈ m.body, b.1 ≠ .opt := by simp [m]
  have hsmall : ∀ b ∈ m.body, b.2.Small := by
    rintro b ⟨⟩
    decide
  have htrailers : ∀ b ∈ m.body, b.2.trailers = [] := by
    rintro b ⟨⟩
    rfl
  have hitems : ([body, hdr].map Item.entry).Perm m.entries := by decide
  exact readReqData_splits hkind hsmall htrailers (by decide) hitems
    { Header.new with request := ⟨[], [], []⟩, rawData := [] } (fun _ => rfl)

/-! ## Preview and continue -/

namespace RequestDataAux

/-- The last entry of the sorted list: no offset is greater, and those behind it in the order of the map are smaller. -/
theorem getLast?_sortEncapsulated {h : Header} {e : Entity} {l₁ l₂ : List Entity} (hall : Entity.all = l₁ ++ e :: l₂)
    (h₁ : ∀ e' ∈ l₁, h.encapsulated e' ≤ h.encapsulated e) (h₂ : ∀ e' ∈ l₂, h.encapsulated e' < h.encapsulated e) :
    h.sortEncapsulated.getLast? = some (e, h.encapsulated e) := by
  rw [Header.sortEncapsulated, hall, List.map_append, List.map_cons]
  refine StableSort.getLast?_sortBy ?_ ?_
  · intro x hx
    obtain ⟨e', he', rfl⟩ := List.mem_map.mp hx
    exact h₁ e' he'
  · intro x hx
    obtain ⟨e', he', rfl⟩ := List.mem_map.mp hx
    exact h₂ e' he'

/-- A listed entity has its offset. -/
theorem encapsulated_of_mem {h : Header} {l : List (Entity × Int)} (hl : h.Lists l) {x : Entity × Int} (hx : x ∈ l) :
    h.encapsulated x.1 = x.2 := ((hl x).mp hx).1

/-- An entity that is not listed has a negative offset. -/
theorem encapsulated_neg {h : Header} {l : List (Entity × Int)} (hl : h.Lists l) {e : Entity} (he : ∀ x ∈ l, x.1 ≠ e) :
    h.encapsulated e < 0 := by
  by_contra hnn
  exact he (e, h.encapsulated e) ((hl _).mpr ⟨rfl, not_lt.mp hnn⟩) rfl

/-- A header that lists the entries of a message has the body behind the headers, and no offset for what is not there. -/
theorem encapsulated_message {h : Header} {m : Message} (hl : h.Lists m.entries) :
    h.encapsulated m.bodyEntity = m.headers.length ∧
      ∀ e, (e = .reqHdr → m.reqHeader = []) → (e = .resHdr → m.resHeader = []) → e ≠ m.bodyEntity → h.encapsulated e < 0 := by
  refine ⟨?_, fun e h1 h2 h3 => encapsulated_neg hl fun x hx hxe => ?_⟩
  · exact encapsulated_of_mem hl (x := (m.bodyEntity, (m.headers.length : Int))) (by simp [Message.entries])
  · subst hxe
    unfold Message.entries at hx
    rcases List.mem_append.mp hx with hx | hx
    · by_cases hne : m.reqHeader = []
      · simp [hne] at hx
      · rw [if_pos hne, List.mem_singleton] at hx
        exact hne (h1 (by rw [hx]))
    · rcases List.mem_append.mp hx with hx | hx
      · by_cases hne : m.resHeader = []
        · simp [hne] at hx
        · rw [if_pos hne, List.mem_singleton] at hx
          exact hne (h2 (by rw [hx]))
      · rw [List.mem_singleton] at hx
        exact h3 (by rw [hx])

/-- The headers of the request or the length of the preview keep the body the last entry. -/
def BodyStaysLast (reqHeader resHeader : Bytes) (P : ChunkedBody) : Prop :=
  (reqHeader ≠ [] ∨ resHeader ≠ []) ∨ toInt32 (toUInt32 P.content.length) ≤ 0

instance (reqHeader resHeader : Bytes) (P : ChunkedBody) : Decidable (BodyStaysLast reqHeader resHeader P) :=
  inferInstanceAs (Decidable ((_ ∨ _) ∨ _))

/-- The sections of a message with a body: the two headers, then the body. -/
def sections (h : Header) (reqHeader resHeader : Bytes) (e : Entity) (content : Bytes) : Header × Nat × Nat :=
  Header.updateSection e content (Header.updateSection .resHdr resHeader (Header.updateSection .reqHdr reqHeader (h, 0, 0)))

/-- What the three sections set, and the two counters behind them. -/
theorem sections_spec (h : Header) {reqHeader resHeader : Bytes} (hlt : reqHeader.length + resHeader.length < 2 ^ 31) (e : Entity)
    (content : Bytes) :
    (sections h reqHeader resHeader e content).2.1 = toUInt32 (reqHeader.length + resHeader.length + content.length) ∧
    (sections h reqHeader resHeader e content).2.2 =
      (if content = [] then if resHeader = [] then 0 else reqHeader.length else reqHeader.length + resHeader.length) ∧
    ∀ e', (sections h reqHeader resHeader e content).1.encapsulated e' =
      if content ≠ [] ∧ e' = e then ((reqHeader.length + resHeader.length : Nat) : Int)
      else if resHeader ≠ [] ∧ e' = .resHdr then (reqHeader.length : Int)
      else if reqHeader ≠ [] ∧ e' = .reqHdr then 0 else h.encapsulated e' := by
  have h0 : ((h, 0, 0) : Header × Nat × Nat).2.1 < 2 ^ 32 := Nat.two_pow_pos 32
  have hlen1 : (Header.updateSection .reqHdr reqHeader (h, 0, 0)).2.1 = reqHeader.length := by
    rw [Header.updateSection_dataLength h0, Nat.zero_add]
    exact toUInt32_of_lt (by omega)
  have hlen2 : (Header.updateSection .resHdr resHeader (Header.updateSection .reqHdr reqHeader (h, 0, 0))).2.1 =
      reqHeader.length + resHeader.length := by
    rw [Header.updateSection_dataLength (by omega), hlen1]
    exact toUInt32_of_lt (by omega)
  unfold sections
  refine ⟨?_, ?_, fun e' => ?_⟩
  · rw [Header.updateSection_dataLength (by omega), hlen2]
  · rw [Header.updateSection_dataOffset, Header.updateSection_dataOffset, Header.updateSection_dataOffset, hlen2, hlen1, ite_self]
  · have hzero : toInt32 ((h, 0, 0) : Header × Nat × Nat).2.1 = 0 := toInt32_zero
    have hle : reqHeader.length < 2 ^ 31 := by omega
    rw [Header.updateSection_encapsulated, Header.updateSection_encapsulated, Header.updateSection_encapsulated, hlen2, hlen1,
      toInt32_of_lt hlt, toInt32_of_lt hle, hzero]

/-- A `null-body` is set where the last section that is not empty starts at 0. -/
theorem updateEncapsulated_message (h : Header) {reqHeader resHeader : Bytes} {kind : BodyKind} {P : ChunkedBody} (hkind : kind ≠ .opt)
    (hgrammar : kind = .req → resHeader = []) :
    h.updateEncapsulated (Message.payload ⟨reqHeader, resHeader, some (kind, P)⟩) =
      if (sections h reqHeader resHeader kind.entity P.content).2.2 = 0 then
        (sections h reqHeader resHeader kind.entity P.content).1.setEncapsulated .nullBody
          (toInt32 (sections h reqHeader resHeader kind.entity P.content).2.1)
      else (sections h reqHeader resHeader kind.entity P.content).1 := by
  cases kind with
  | opt => exact absurd rfl hkind
  | res => rfl
  | req =>
    obtain rfl := hgrammar rfl
    rfl

/-- The offsets after a preview: the body stands behind the headers, and the `null-body` behind the body exactly if the body does not
stay last. -/
theorem encapsulated_preview {h : Header} {reqHeader resHeader : Bytes} {kind : BodyKind} {P : ChunkedBody} (hkind : kind ≠ .opt)
    (hgrammar : kind = .req → resHeader = []) (hl : h.Lists (Message.entries ⟨reqHeader, resHeader, some (kind, P)⟩))
    (hlt : reqHeader.length + resHeader.length < 2 ^ 31) {h' : Header}
    (hh' : h.updateEncapsulated (Message.payload ⟨reqHeader, resHeader, some (kind, P)⟩) = h') :
    (h'.encapsulated .nullBody ≤ h'.encapsulated kind.entity ↔ BodyStaysLast reqHeader resHeader P) ∧
      ∀ e, e ≠ .nullBody → e ≠ kind.entity → h'.encapsulated e < h'.encapsulated kind.entity := by
  obtain ⟨hbody, hneg⟩ := encapsulated_message hl
  replace hbody : h.encapsulated kind.entity = (reqHeader.length + resHeader.length : Nat) := by
    rw [← List.length_append]
    exact hbody
  have hentity : kind.entity ≠ .nullBody ∧ kind.entity ≠ .reqHdr ∧ kind.entity ≠ .resHdr := by
    cases kind <;> decide
  have hnull : h.encapsulated .nullBody < 0 := hneg .nullBody nofun nofun hentity.1.symm
  obtain ⟨hlen, hoff, hset⟩ := sections_spec h hlt kind.entity P.content
  have hset_body : (sections h reqHeader resHeader kind.entity P.content).1.encapsulated kind.entity =
      (reqHeader.length + resHeader.length : Nat) := by
    rw [hset]
    by_cases hc : P.content = []
    · simp [hc, hentity.2.1, hentity.2.2, hbody]
    · rw [if_pos ⟨hc, rfl⟩]
  have hset_null : (sections h reqHeader resHeader kind.entity P.content).1.encapsulated .nullBody < 0 := by
    rw [hset, if_neg (fun hbody => hentity.1 hbody.2.symm), if_neg (by simp), if_neg (by simp)]
    exact hnull
  rw [updateEncapsulated_message h hkind hgrammar] at hh'
  have hkeeps : ∀ e, e ≠ .nullBody →
      h'.encapsulated e = (sections h reqHeader resHeader kind.entity P.content).1.encapsulated e := by
    intro e hne
    rw [← hh']
    split
    · rw [Header.setEncapsulated_encapsulated, if_neg hne]
    · rfl
  rw [hkeeps _ hentity.1, hset_body]
  refine ⟨?_, fun e hne hnb => ?_⟩
  · by_cases hzero : (sections h reqHeader resHeader kind.entity P.content).2.2 = 0
    · rw [← hh', if_pos hzero, Header.setEncapsulated_encapsulated, if_pos rfl, hlen]
      rw [hoff] at hzero
      by_cases hc : P.content = []
      · rw [hc, List.length_nil, Nat.add_zero, toUInt32_of_lt (by omega), toInt32_of_lt hlt]
        exact iff_of_true (le_refl _) (.inr (by rw [hc]; decide))
      · rw [if_neg hc, Nat.add_eq_zero_iff, List.length_eq_zero_iff, List.length_eq_zero_iff] at hzero
        obtain ⟨rfl, rfl⟩ := hzero
        simp [BodyStaysLast]
    · rw [← hh', if_neg hzero]
      refine iff_of_true (by omega) (.inl ?_)
      by_contra hnone
      rw [not_or, not_not, not_not] at hnone
      exact hzero (by rw [hoff, hnone.1, hnone.2]; simp)
  · rw [hkeeps e hne, hset, if_neg (fun hbody => hnb hbody.2)]
    by_cases hres : resHeader ≠ [] ∧ e = .resHdr
    · have hpos := List.length_pos_iff.mpr hres.1
      rw [if_pos hres]
      omega
    by_cases hreq : reqHeader ≠ [] ∧ e = .reqHdr
    · have hpos := List.length_pos_iff.mpr hreq.1
      rw [if_neg hres, if_pos hreq]
      omega
    · have hlt' := hneg e (fun he => not_not.mp fun h1 => hreq ⟨h1, he⟩) (fun he => not_not.mp fun h2 => hres ⟨h2, he⟩) hnb
      rw [if_neg hres, if_neg hreq]
      omega

/-- The last entry after a preview: the body, unless a `null-body` has been put behind it. -/
theorem getLast?_preview {h : Header} {reqHeader resHeader : Bytes} {kind : BodyKind} {P : ChunkedBody} (hkind : kind ≠ .opt)
    (hgrammar : kind = .req → resHeader = []) (hl : h.Lists (Message.entries ⟨reqHeader, resHeader, some (kind, P)⟩))
    (hlt : reqHeader.length + resHeader.length < 2 ^ 31) : ∃ x : Int,
      (h.updateEncapsulated (Message.payload ⟨reqHeader, resHeader, some (kind, P)⟩)).sortEncapsulated.getLast? = some
        (if BodyStaysLast reqHeader resHeader P then kind.entity else .nullBody, x) := by
  generalize hh' : h.updateEncapsulated (Message.payload ⟨reqHeader, resHeader, some (kind, P)⟩) = h'
  obtain ⟨hnull, hother⟩ := encapsulated_preview hkind hgrammar hl hlt hh'
  have hne : kind.entity ≠ .nullBody := by cases kind <;> decide
  by_cases hlast : BodyStaysLast reqHeader resHeader P
  · rw [if_pos hlast]
    have hle : ∀ e, h'.encapsulated e ≤ h'.encapsulated kind.entity := by
      intro e
      by_cases h1 : e = .nullBody
      · exact h1 ▸ hnull.mpr hlast
      by_cases h2 : e = kind.entity
      · exact h2 ▸ le_refl _
      · exact le_of_lt (hother e h1 h2)
    -- the `null-body` comes before all other names
    obtain ⟨l₁, l₂, hall, hbehind⟩ : ∃ l₁ l₂, Entity.all = l₁ ++ kind.entity :: l₂ ∧ ∀ e ∈ l₂, e ≠ .nullBody ∧ e ≠ kind.entity := by
      cases kind with
      | opt => exact absurd rfl hkind
      | req => exact ⟨[.nullBody, .optBody], [.reqHdr, .resBody, .resHdr], rfl, by decide⟩
      | res => exact ⟨[.nullBody, .optBody, .reqBody, .reqHdr], [.resHdr], rfl, by decide⟩
    exact ⟨_, getLast?_sortEncapsulated hall (fun e _ => hle e) fun e he => hother e (hbehind e he).1 (hbehind e he).2⟩
  · rw [if_neg hlast]
    have hbody : h'.encapsulated kind.entity < h'.encapsulated .nullBody := not_le.mp fun hle => hlast (hnull.mp hle)
    have hall : Entity.all = [] ++ Entity.nullBody :: [.optBody, .reqBody, .reqHdr, .resBody, .resHdr] := rfl
    refine ⟨_, getLast?_sortEncapsulated hall nofun fun e he => ?_⟩
    by_cases h2 : e = kind.entity
    · exact h2 ▸ hbody
    · exact (hother e (by rintro rfl; simp at he) h2).trans hbody

/-- A message with a body whose sizes fit and that has no trailers is read whole. -/
theorem readReqData_whole {header : RequestHeader} {reqHeader resHeader : Bytes} {kind : BodyKind} {P : ChunkedBody}
    (hkind : kind ≠ .opt) (hl : header.Lists (Message.entries ⟨reqHeader, resHeader, some (kind, P)⟩)) (hP : P.Small)
    (htP : P.trailers = []) : Consumes (readReqData (Request.new header)) (Message.wire ⟨reqHeader, resHeader, some (kind, P)⟩)
      ((Request.new header).setPayload (Message.payload ⟨reqHeader, resHeader, some (kind, P)⟩), true) := by
  obtain ⟨taken, p, hwire, hread, hp⟩ := readReqData_message _ (Request.new header) hl
  have hleft : Message.leftover ⟨reqHeader, resHeader, some (kind, P)⟩ = [] := by
    cases kind with
    | opt => exact absurd rfl hkind
    | req | res => exact P.leftover_eq_nil_iff.mpr ⟨hP, htP⟩
  rw [hleft, List.append_nil] at hwire
  rw [hwire, ← hp (by simpa using hP)]
  exact hread

/-- Where the body is the last entry, the remainder is appended to it. -/
theorem readReqContinueData_body (request : Request) {kind : BodyKind} {x : Int} {Q : ChunkedBody} (hkind : kind ≠ .opt)
    (hlast : request.header.sortEncapsulated.getLast? = some (kind.entity, x)) (hQ : Q.Small) (htQ : Q.trailers = []) :
    ∃ p : Payload, Consumes (readReqContinueData request) Q.wire (request.setPayload p, true) ∧
      kind.field p = kind.field request.payload ++ Q.content ∧ (∀ k, k ≠ kind → k.field p = k.field request.payload) ∧
      p.reqHeader = request.payload.reqHeader ∧ p.resHeader = request.payload.resHeader := by
  unfold readReqContinueData
  rw [hlast]
  cases kind with
  | opt => exact absurd rfl hkind
  | req =>
    refine ⟨{ request.payload with reqBody := request.payload.reqBody ++ Q.content, ieof := Q.last.ieof }, ?_, rfl, ?_, rfl, rfl⟩
    · exact ((readChunkedPayload_content hQ htQ _).map _).map _
    · intro k hk
      cases k with
      | req => exact absurd rfl hk
      | res | opt => rfl
  | res =>
    refine ⟨{ request.payload with resBody := request.payload.resBody ++ Q.content, ieof := Q.last.ieof }, ?_, rfl, ?_, rfl, rfl⟩
    · exact ((readChunkedPayload_content hQ htQ _).map _).map _
    · intro k hk
      cases k with
      | res => exact absurd rfl hk
      | req | opt => rfl

/-- Where a `null-body` is the last entry, nothing is read. -/
theorem readReqContinueData_null {request : Request} {x : Int}
    (hlast : request.header.sortEncapsulated.getLast? = some (.nullBody, x)) (s : Conn) :
    (readReqContinueData request).run s = .ok ((request.setPayload request.payload, true), s) := by
  unfold readReqContinueData
  rw [hlast]
  rfl

end RequestDataAux

open RequestDataAux

/-- The preview `P` and the remainder `Q` of a body: read one after the other, and all of both, they are the body of the request,
behind unchanged header sections. -/
def Reconstructs (header : RequestHeader) (reqHeader resHeader : Bytes) (kind : BodyKind) (P Q : ChunkedBody) : Prop :=
  ∀ (s : Conn) (rest : Bytes), s.good = true →
    s.unread = Message.wire ⟨reqHeader, resHeader, some (kind, P)⟩ ++ (Q.wire ++ rest) → ∃ request request' : Request,
      (readReqData (Request.new header)).run s = .ok ((request, true), { s with unread := Q.wire ++ rest }) ∧
      (readReqContinueData request).run { s with unread := Q.wire ++ rest } = .ok ((request', true), { s with unread := rest }) ∧
      kind.field request'.payload = P.content ++ Q.content ∧ request'.payload.reqHeader = reqHeader ∧
      request'.payload.resHeader = resHeader

namespace RequestDataAux

/-- A preview behind which a `null-body` is put loses the remainder. -/
theorem not_reconstructs {header : RequestHeader} {reqHeader resHeader : Bytes} {kind : BodyKind} {P Q : ChunkedBody}
    (hkind : kind ≠ .opt) (hgrammar : kind = .req → resHeader = [])
    (hl : header.Lists (Message.entries ⟨reqHeader, resHeader, some (kind, P)⟩))
    (hlt : reqHeader.length + resHeader.length < 2 ^ 31) (hP : P.Small) (htP : P.trailers = [])
    (hlost : ¬BodyStaysLast reqHeader resHeader P) : ¬Reconstructs header reqHeader resHeader kind P Q := by
  intro h
  let s := Conn.ofInput (Message.wire ⟨reqHeader, resHeader, some (kind, P)⟩ ++ (Q.wire ++ []))
  obtain ⟨request, request', h1, h2, -⟩ := h s [] rfl rfl
  have hread := readReqData_whole hkind hl hP htP s (Q.wire ++ []) rfl rfl
  obtain ⟨x, hx⟩ := getLast?_preview hkind hgrammar hl hlt
  rw [if_neg hlost] at hx
  rw [h1] at hread
  have hreq : request = (Request.new header).setPayload (Message.payload ⟨reqHeader, resHeader, some (kind, P)⟩) :=
    congrArg (fun r => r.1.1) (Except.ok.inj hread)
  rw [readReqContinueData_null (x := x) (by rw [hreq]; exact hx)] at h2
  have hrest : Q.wire ++ [] = [] := congrArg (fun r => r.2.unread) (Except.ok.inj h2)
  have hpos := Q.length_wire_pos
  rw [List.append_nil] at hrest
  rw [hrest] at hpos
  exact absurd hpos (lt_irrefl _)

end RequestDataAux

/-- A preview and its remainder are put together exactly if the body stays the last entry: some header section is there, or
the length of the preview is not positive as an `int`. -/
theorem reconstructs_iff {header : RequestHeader} {reqHeader resHeader : Bytes} {kind : BodyKind} {P Q : ChunkedBody}
    (hkind : kind ≠ .opt) (hgrammar : kind = .req → resHeader = [])
    (hl : header.Lists (Message.entries ⟨reqHeader, resHeader, some (kind, P)⟩))
    (hlt : reqHeader.length + resHeader.length < 2 ^ 31) (hP : P.Small) (htP : P.trailers = []) (hQ : Q.Small)
    (htQ : Q.trailers = []) : Reconstructs header reqHeader resHeader kind P Q ↔ BodyStaysLast reqHeader resHeader P := by
  constructor
  · intro h
    by_contra hlost
    exact not_reconstructs hkind hgrammar hl hlt hP htP hlost h
  · intro hkept s rest hg hs
    obtain ⟨x, hx⟩ := getLast?_preview hkind hgrammar hl hlt
    rw [if_pos hkept] at hx
    obtain ⟨p, hcont, hbody, -, hreqh, hresh⟩ := readReqContinueData_body
      ((Request.new header).setPayload (Message.payload ⟨reqHeader, resHeader, some (kind, P)⟩)) hkind hx hQ htQ
    refine ⟨_, _, readReqData_whole hkind hl hP htP s _ hg hs, hcont { s with unread := Q.wire ++ rest } rest hg rfl, ?_, ?_, ?_⟩
    · refine hbody.trans ?_
      cases kind with
      | opt => exact absurd rfl hkind
      | req | res => rfl
    · refine hreqh.trans ?_
      cases kind <;> rfl
    · refine hresh.trans ?_
      cases kind <;> rfl

namespace RequestDataAux

/-- A request header with the entries and nothing else. -/
def headerOf (l : List (Entity × Int)) : RequestHeader :=
  { Header.new.setEntries l with request := ⟨[], [], []⟩, rawData := [] }

theorem headerOf_lists {l : List (Entity × Int)} (hnd : (l.map Prod.fst).Nodup) (hnn : ∀ x ∈ l, 0 ≤ x.2) :
    (headerOf l).Lists l := lists_setEntries (fun _ => (by decide : (-1 : Int) < 0)) hnd hnn

end RequestDataAux

/-- A preview behind a request header is put together with the remainder. -/
theorem reconstructs_reqHdr : Reconstructs (headerOf [(.reqHdr, 0), (.reqBody, 3)]) (bytes "GET") [] .req
    (ChunkedBody.ofData (bytes "ab")) (ChunkedBody.ofData (bytes "c")) :=
  (reconstructs_iff (by decide) (fun _ => rfl) (headerOf_lists (by decide) (by decide)) (by decide) (by decide) rfl
    (by decide) rfl).mpr (by decide)

/-- A preview without a header section is not put together with the remainder. -/
theorem reconstructs_false : ¬∀ (header : RequestHeader) (reqHeader resHeader : Bytes) (kind : BodyKind) (P Q : ChunkedBody),
    kind ≠ .opt → (kind = .req → resHeader = []) → header.Lists (Message.entries ⟨reqHeader, resHeader, some (kind, P)⟩) →
    reqHeader.length + resHeader.length < 2 ^ 31 → P.Small → P.trailers = [] → P.last.ieof = false → Q.Small → Q.trailers = [] →
    Reconstructs header reqHeader resHeader kind P Q := by
  intro h
  have hl : (headerOf [(.reqBody, 0)]).Lists (Message.entries ⟨[], [], some (.req, ChunkedBody.ofData (bytes "a"))⟩) :=
    headerOf_lists (by decide) (by decide)
  have hlost : ¬BodyStaysLast [] [] (ChunkedBody.ofData (bytes "a")) := by decide
  refine not_reconstructs (by decide) (fun _ => rfl) hl (by decide) (by decide) rfl hlost
    (h _ _ _ _ _ (ChunkedBody.ofData []) (by decide) (fun _ => rfl) hl (by decide) (by decide) rfl (by decide) (by decide) rfl)

end BitzServer
