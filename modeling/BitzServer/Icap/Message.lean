import BitzServer.Icap.ReqData

/-!
# Encapsulated messages

What an ICAP request encapsulates: header sections and a body in chunks, or none, with the `Encapsulated` entries that go with
them. `read_req_data` takes the header sections, and of the body what the chunk reader takes.
-/

namespace BitzServer

open Feed

/-- The kinds of bodies. -/
inductive BodyKind where
  | req
  | res
  | opt
  deriving DecidableEq

def BodyKind.entity : BodyKind → Entity
  | req => .reqBody
  | res => .resBody
  | opt => .optBody

/-- The field of the payload that a body goes to. -/
def BodyKind.field (kind : BodyKind) (payload : Payload) : Bytes :=
  match kind with
  | req => payload.reqBody
  | res => payload.resBody
  | opt => []

/-- An encapsulated message. A header section that is absent is empty. -/
structure Message where
  reqHeader : Bytes
  resHeader : Bytes
  body : Option (BodyKind × ChunkedBody)

namespace Message

def headers (m : Message) : Bytes := m.reqHeader ++ m.resHeader

/-- The entity that stands last in the list. -/
def bodyEntity (m : Message) : Entity :=
  match m.body with
  | some (kind, _) => kind.entity
  | none => .nullBody

def wire (m : Message) : Bytes :=
  m.headers ++ match m.body with
    | some (_, B) => B.wire
    | none => []

/-- The entries of the `Encapsulated` list: each section with its offset. -/
def entries (m : Message) : List (Entity × Int) :=
  (if m.reqHeader ≠ [] then [(.reqHdr, 0)] else []) ++
    ((if m.resHeader ≠ [] then [(.resHdr, (m.reqHeader.length : Int))] else []) ++
      [(m.bodyEntity, (m.headers.length : Int))])

/-- The payload without the body. -/
def headerPayload (m : Message) : Payload := { Payload.empty with reqHeader := m.reqHeader, resHeader := m.resHeader }

/-- The payload that the message stands for. -/
def payload (m : Message) : Payload :=
  match m.body with
  | some (.req, B) => { m.headerPayload with reqBody := B.content, ieof := B.last.ieof }
  | some (.res, B) => { m.headerPayload with resBody := B.content, ieof := B.last.ieof }
  | _ => m.headerPayload

/-- What `read_req_data` leaves of the message: no reader takes an `opt-body`. -/
def leftover (m : Message) : Bytes :=
  match m.body with
  | some (.opt, B) => B.wire
  | some (_, B) => B.leftover
  | none => []

end Message

namespace MessageAux

/-- The offsets of the entries increase. -/
theorem entries_pairwise (m : Message) : m.entries.Pairwise (fun a b => a.2 < b.2) := by
  have hlen : m.headers.length = m.reqHeader.length + m.resHeader.length := List.length_append
  unfold Message.entries
  by_cases h1 : m.reqHeader = []
  · by_cases h2 : m.resHeader = []
    · simp [h1, h2]
    · have hpos := List.length_pos_iff.mpr h2
      simp [h1, h2, hlen, hpos]
  · have hpos1 := List.length_pos_iff.mpr h1
    by_cases h2 : m.resHeader = []
    · simp [h1, h2, hlen, hpos1]
    · have hpos2 := List.length_pos_iff.mpr h2
      simp [h1, h2, hlen]
      omega

/-- A header section is read whole. -/
theorem readSection_reqHdr {w : Bytes} (hw : w ≠ []) (payload : Payload) :
    Consumes (readSection .reqHdr w.length payload) w { payload with reqHeader := w } := by
  have hpos : (w.length : Int) > 0 := Int.natCast_pos.mpr (List.length_pos_iff.mpr hw)
  rw [readSection, if_pos hpos]
  exact (readData_consumes w).map _

theorem readSection_resHdr {w : Bytes} (hw : w ≠ []) (payload : Payload) :
    Consumes (readSection .resHdr w.length payload) w { payload with resHeader := w } := by
  have hpos : (w.length : Int) > 0 := Int.natCast_pos.mpr (List.length_pos_iff.mpr hw)
  rw [readSection, if_pos hpos]
  exact (readData_consumes w).map _

/-- The loop from the response header on: `offset` bytes stand before it. -/
theorem readReqDataLoop_resHdr {resHeader w : Bytes} {e : Entity} {p : Payload} (p₀ : Payload) (offset : Nat) (hp₀ : p₀.resHeader = [])
    (hlast : Consumes (readLast e { p₀ with resHeader := resHeader }) w p) :
    Consumes (readReqDataLoop ((if resHeader ≠ [] then [(.resHdr, (offset : Int))] else []) ++
      [(e, ((offset + resHeader.length : Nat) : Int))]) p₀) (resHeader ++ w) p := by
  by_cases h : resHeader = []
  · subst h
    rw [if_neg (by simp), List.nil_append, List.nil_append, readReqDataLoop, if_neg (by omega)]
    rw [← hp₀] at hlast
    exact hlast
  · have hlen : ((offset + resHeader.length : Nat) : Int) - offset = resHeader.length := by omega
    rw [if_pos h, List.singleton_append, readReqDataLoop, if_neg (by omega), hlen]
    refine (readSection_resHdr h p₀).bind ?_
    rw [readReqDataLoop, if_neg (by omega)]
    exact hlast

/-- The loop over the entries of a message takes the header sections and then what is taken for the last entry. -/
theorem readReqDataLoop_entries (m : Message) {w : Bytes} {p : Payload}
    (hlast : Consumes (readLast m.bodyEntity m.headerPayload) w p) :
    Consumes (readReqDataLoop m.entries Payload.empty) (m.headers ++ w) p := by
  unfold Message.headerPayload at hlast
  have hres := readReqDataLoop_resHdr { Payload.empty with reqHeader := m.reqHeader } m.reqHeader.length rfl hlast
  rw [← List.length_append] at hres
  unfold Message.entries Message.headers
  by_cases h : m.reqHeader = []
  · have hempty : { Payload.empty with reqHeader := m.reqHeader } = Payload.empty := by rw [h]; rfl
    rw [hempty] at hres
    rw [if_neg (not_not.mpr h), List.nil_append]
    refine hres.cast ?_
    rw [h, List.nil_append]
  · rw [if_pos h, List.singleton_append, List.append_assoc]
    obtain ⟨next, rest, hnext, hoff⟩ : ∃ next rest, (if m.resHeader ≠ [] then [(Entity.resHdr, (m.reqHeader.length : Int))] else []) ++
        [(m.bodyEntity, ((m.reqHeader ++ m.resHeader).length : Int))] = next :: rest ∧ next.2 - 0 = m.reqHeader.length := by
      by_cases h2 : m.resHeader = []
      · exact ⟨_, _, by rw [if_neg (not_not.mpr h2)]; rfl, by simp [h2]⟩
      · exact ⟨_, _, by rw [if_pos h2]; rfl, by simp⟩
    rw [hnext] at hres ⊢
    rw [readReqDataLoop, if_neg (by omega), hoff]
    exact (readSection_reqHdr h Payload.empty).bind hres

/-- What is taken for the last entry of a message, and what the payload becomes where all sizes fit. -/
theorem readLast_message (m : Message) : ∃ (taken : Bytes) (p : Payload), m.wire = m.headers ++ taken ++ m.leftover ∧
    Consumes (readLast m.bodyEntity m.headerPayload) taken p ∧ ((∀ b ∈ m.body, b.2.Small) → p = m.payload) := by
  unfold Message.wire Message.leftover Message.bodyEntity Message.payload
  rcases m.body with _ | ⟨kind, B⟩
  · exact ⟨[], m.headerPayload, by simp, Consumes.pure _, fun _ => rfl⟩
  · obtain ⟨taken, htaken, hread⟩ := readChunkedPayload_consumes B
    have hwire : m.headers ++ B.wire = m.headers ++ taken ++ B.leftover := by rw [htaken, List.append_assoc]
    obtain ⟨⟨ieof, body⟩, hr, hsmall⟩ := hread []
    cases kind with
    | req =>
      refine ⟨taken, { m.headerPayload with reqBody := body, ieof := ieof }, hwire, hr.map _, ?_⟩
      intro hB
      obtain ⟨rfl, rfl⟩ := Prod.mk.inj (hsmall (hB _ rfl))
      rfl
    | res =>
      refine ⟨taken, { m.headerPayload with resBody := body, ieof := ieof }, hwire, hr.map _, ?_⟩
      intro hB
      obtain ⟨rfl, rfl⟩ := Prod.mk.inj (hsmall (hB _ rfl))
      rfl
    | opt => exact ⟨[], m.headerPayload, by simp, Consumes.pure _, fun _ => rfl⟩

end MessageAux

open MessageAux

/-- A header that lists nothing yet lists the entries of a message after it has read them as a list, in any order. -/
theorem attachEncapsulated_entries {m : Message} {items : List Item} (hitems : (items.map Item.entry).Perm m.entries)
    (hlt : m.headers.length < 2 ^ 31) {h : Header} (hneg : ∀ e, h.encapsulated e < 0) :
    h.attachEncapsulated (listText items) = .ok (h.setEntries (items.map Item.entry), true) ∧
      (h.setEntries (items.map Item.entry)).Lists m.entries := by
  have hne : items ≠ [] := by
    rintro rfl
    have := hitems.length_eq
    simp [Message.entries] at this
  have hoff : ∀ x ∈ m.entries, x.2 ≤ m.headers.length := by
    have hle : (m.reqHeader.length : Int) ≤ m.headers.length := by
      rw [Message.headers, List.length_append]
      omega
    intro x hx
    unfold Message.entries at hx
    rcases List.mem_append.mp hx with hx | hx
    · obtain rfl : x = (.reqHdr, 0) := by
        by_cases h1 : m.reqHeader = [] <;> simp [h1] at hx
        exact hx
      exact Int.natCast_nonneg _
    · rcases List.mem_append.mp hx with hx | hx
      · obtain rfl : x = (.resHdr, (m.reqHeader.length : Int)) := by
          by_cases h2 : m.resHeader = [] <;> simp [h2] at hx
          exact hx
        exact hle
      · rw [List.mem_singleton] at hx
        rw [hx]
  have hlt' : ∀ i ∈ items, i.offset < 2 ^ 31 := by
    intro i hi
    have hle : (i.offset : Int) ≤ m.headers.length := hoff i.entry (hitems.mem_iff.mp (List.mem_map_of_mem hi))
    omega
  have hnd : ((items.map Item.entry).map Prod.fst).Nodup := by
    have hentities : (m.entries.map Prod.fst).Nodup := by
      unfold Message.entries Message.bodyEntity
      rcases m.body with _ | ⟨kind, B⟩
      · by_cases h1 : m.reqHeader = [] <;> by_cases h2 : m.resHeader = [] <;> simp [h1, h2]
      · cases kind <;> by_cases h1 : m.reqHeader = [] <;> by_cases h2 : m.resHeader = [] <;> simp [h1, h2, BodyKind.entity]
    exact (hitems.map Prod.fst).nodup_iff.mpr hentities
  have hnn : ∀ x ∈ items.map Item.entry, 0 ≤ x.2 := by
    intro x hx
    obtain ⟨i, -, rfl⟩ := List.mem_map.mp hx
    exact Int.natCast_nonneg _
  refine ⟨attachEncapsulated_listText h hne hlt', fun x => ?_⟩
  rw [← hitems.mem_iff]
  exact lists_setEntries hneg hnd hnn x

/-- `read_req_data` of a request whose header lists the entries of a message takes the message up to what it leaves, and sets the
payload of the message where all sizes fit. -/
theorem readReqData_message (m : Message) (request : Request) (hl : request.header.Lists m.entries) :
    ∃ (taken : Bytes) (p : Payload), m.wire = taken ++ m.leftover ∧
      Consumes (readReqData request) taken (request.setPayload p, true) ∧ ((∀ b ∈ m.body, b.2.Small) → p = m.payload) := by
  obtain ⟨low, hsort, hlow⟩ := sortEncapsulated_of_lists hl (entries_pairwise m)
  obtain ⟨taken, p, hwire, hlast, hp⟩ := readLast_message m
  have hne : m.entries ≠ [] := by simp [Message.entries]
  refine ⟨m.headers ++ taken, p, hwire, ?_, hp⟩
  unfold readReqData
  rw [hsort, readReqDataLoop_append hlow hne]
  exact (readReqDataLoop_entries m hlast).map _

end BitzServer
