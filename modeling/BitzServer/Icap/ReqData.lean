import BitzServer.Icap.ChunkedBody
import BitzServer.Icap.Request

/-!
# Reading the encapsulated data of a request

`read_req_data` walks through the sorted `Encapsulated` entries: a header section is as long as the distance to the next offset,
and only the last entry decides whether a chunked body is read. `read_req_continue_data` reads on after a preview.
-/

namespace BitzServer

open Feed

/-- A data section of `read_req_data`, for an entry that is not the last one. -/
def readSection (entity : Entity) (dataLength : Int) (payload : Payload) : SockM Payload := do
  if dataLength > 0 then
    match entity with
    | .reqHdr => return { payload with reqHeader := ← readData dataLength }
    | .reqBody => return { payload with reqBody := ← readData dataLength }
    | .resHdr => return { payload with resHeader := ← readData dataLength }
    | .resBody => return { payload with resBody := ← readData dataLength }
    | _ => return payload
  else return payload

/-- The last entry, in `read_req_data` and in `read_req_continue_data`: a body is read in chunks, nothing else is read. -/
def readLast (entity : Entity) (payload : Payload) : SockM Payload := do
  match entity with
  | .reqBody => do
    let (ieof, reqBody) ← readChunkedPayload payload.reqBody
    return { payload with reqBody, ieof }
  | .resBody => do
    let (ieof, resBody) ← readChunkedPayload payload.resBody
    return { payload with resBody, ieof }
  | _ => return payload

/-- The loop of `read_req_data` over the sorted entries. -/
def readReqDataLoop : List (Entity × Int) → Payload → SockM Payload
  | [], payload => return payload
  | [(entity, offset)], payload => if offset < 0 then return payload else readLast entity payload
  | (entity, offset) :: next :: rest, payload =>
    if offset < 0 then readReqDataLoop (next :: rest) payload
    else do
      let payload ← readSection entity (next.2 - offset) payload
      readReqDataLoop (next :: rest) payload

/-- `read_req_data`: the request with its payload, and the result -/
def readReqData (request : Request) : SockM (Request × Bool) := do
  let payload ← readReqDataLoop request.header.sortEncapsulated Payload.empty
  return (request.setPayload payload, true)

/-- `read_req_continue_data`: the request with its payload, and the result -/
def readReqContinueData (request : Request) : SockM (Request × Bool) := do
  match request.header.sortEncapsulated.getLast? with
  | some (entity, _) => do
    let payload ← readLast entity request.payload
    return (request.setPayload payload, true)
  | none => return (request, false)

/-! ## Both return on every stream -/

theorem readSection_within (entity : Entity) (dataLength : Int) (payload : Payload) :
    Within Conn.Shrinks (readSection entity dataLength payload) := by
  unfold readSection
  split
  · cases entity with
    | nullBody | optBody => exact Within.pure _
    | reqBody | reqHdr | resBody | resHdr => exact Within.bind (readData_within _) fun _ => Within.pure _
  · exact Within.pure _

theorem readLast_within (entity : Entity) (payload : Payload) : Within Conn.Shrinks (readLast entity payload) := by
  unfold readLast
  cases entity with
  | nullBody | optBody | reqHdr | resHdr => exact Within.pure _
  | reqBody | resBody => exact Within.bind (readChunkedPayload_within _) fun _ => Within.pure _

theorem readReqDataLoop_within : ∀ (l : List (Entity × Int)) (payload : Payload),
    Within Conn.Shrinks (readReqDataLoop l payload)
  | [], _ => Within.pure _
  | [(entity, offset)], payload => by
    rw [readReqDataLoop]
    split
    · exact Within.pure _
    · exact readLast_within entity payload
  | (entity, offset) :: next :: rest, payload => by
    rw [readReqDataLoop]
    split
    · exact readReqDataLoop_within (next :: rest) payload
    · exact Within.bind (readSection_within _ _ _) fun p => readReqDataLoop_within (next :: rest) p

/-- `read_req_data` returns true on every stream. -/
theorem readReqData_returns (request : Request) : Returns Conn.Shrinks (fun r => r.2 = true) (readReqData request) :=
  Returns.bind (readReqDataLoop_within _ _) fun _ _ => Returns.pure rfl

/-- The sorted header has six entries: it has a last one. -/
theorem sortEncapsulated_ne_nil (h : Header) : h.sortEncapsulated ≠ [] := by
  intro hnil
  have hperm : h.sortEncapsulated.Perm _ := StableSort.sortBy_perm _
  rw [hnil] at hperm
  simpa [Entity.all] using hperm.length_eq

/-- `read_req_continue_data` returns true on every stream. -/
theorem readReqContinueData_returns (request : Request) :
    Returns Conn.Shrinks (fun r => r.2 = true) (readReqContinueData request) := by
  unfold readReqContinueData
  split
  · exact Returns.bind (readLast_within _ _) fun _ _ => Returns.pure rfl
  · rename_i hnone
    exact absurd (List.getLast?_eq_none_iff.mp hnone) (sortEncapsulated_ne_nil _)

/-! ## Both write nothing -/

theorem readSection_writesNothing (entity : Entity) (dataLength : Int) (payload : Payload) :
    Keeps Conn.WritesNothing (readSection entity dataLength payload) := by
  unfold readSection
  split
  · cases entity with
    | nullBody | optBody => exact Keeps.pure _
    | reqBody | reqHdr | resBody | resHdr => exact Keeps.bind (readData_writesNothing _) fun _ => Keeps.pure _
  · exact Keeps.pure _

theorem readLast_writesNothing (entity : Entity) (payload : Payload) : Keeps Conn.WritesNothing (readLast entity payload) := by
  unfold readLast
  cases entity with
  | nullBody | optBody | reqHdr | resHdr => exact Keeps.pure _
  | reqBody | resBody => exact Keeps.bind (readChunkedPayload_writesNothing _) fun _ => Keeps.pure _

theorem readReqDataLoop_writesNothing : ∀ (l : List (Entity × Int)) (payload : Payload),
    Keeps Conn.WritesNothing (readReqDataLoop l payload)
  | [], _ => Keeps.pure _
  | [(entity, offset)], payload => by
    rw [readReqDataLoop]
    split
    · exact Keeps.pure _
    · exact readLast_writesNothing entity payload
  | (entity, offset) :: next :: rest, payload => by
    rw [readReqDataLoop]
    split
    · exact readReqDataLoop_writesNothing (next :: rest) payload
    · exact Keeps.bind (readSection_writesNothing _ _ _) fun p => readReqDataLoop_writesNothing (next :: rest) p

theorem readReqData_writesNothing (request : Request) : Keeps Conn.WritesNothing (readReqData request) :=
  Keeps.bind (readReqDataLoop_writesNothing _ _) fun _ => Keeps.pure _

theorem readReqContinueData_writesNothing (request : Request) : Keeps Conn.WritesNothing (readReqContinueData request) := by
  unfold readReqContinueData
  split
  · exact Keeps.bind (readLast_writesNothing _ _) fun _ => Keeps.pure _
  · exact Keeps.pure _

/-! ## Reading the listed sections -/

/-- Entries with negative offsets before a last entry are passed over. -/
theorem readReqDataLoop_append {low l : List (Entity × Int)} (hlow : ∀ x ∈ low, x.2 < 0) (hl : l ≠ []) (payload : Payload) :
    readReqDataLoop (low ++ l) payload = readReqDataLoop l payload := by
  induction low with
  | nil => rfl
  | cons x low ih =>
    obtain ⟨next, rest, hnext⟩ := List.exists_cons_of_ne_nil (List.append_ne_nil_of_right_ne_nil low hl)
    have hx : x.2 < 0 := hlow x List.mem_cons_self
    rw [List.cons_append, hnext, readReqDataLoop, if_pos hx, ← hnext]
    exact ih fun y hy => hlow y (List.mem_cons_of_mem _ hy)

/-- Where no offset is set, nothing is read. -/
theorem readReqDataLoop_negative : ∀ {l : List (Entity × Int)}, (∀ x ∈ l, x.2 < 0) → ∀ payload : Payload,
    readReqDataLoop l payload = pure payload
  | [], _, _ => rfl
  | [x], h, payload => by
    rw [readReqDataLoop, if_pos (h x List.mem_cons_self)]
  | x :: next :: rest, h, payload => by
    rw [readReqDataLoop, if_pos (h x List.mem_cons_self)]
    exact readReqDataLoop_negative (fun y hy => h y (List.mem_cons_of_mem _ hy)) payload

/-- The number of bytes that `read_req_data` wants for an entry that is not the last one. -/
def sectionLength (entity : Entity) (dataLength : Int) : Nat :=
  match entity with
  | .reqHdr | .reqBody | .resHdr | .resBody => dataLength.toNat
  | .nullBody | .optBody => 0

/-- The number of bytes of the sections that a sorted list declares before its last entry. -/
def declaredLength : List (Entity × Int) → Nat
  | [] => 0
  | [_] => 0
  | (entity, offset) :: next :: rest =>
    (if offset < 0 then 0 else sectionLength entity (next.2 - offset)) + declaredLength (next :: rest)

/-- A section that is there in full is read in full. -/
theorem readSection_consumes {entity : Entity} {dataLength : Int} {w : Bytes} (hw : w.length = sectionLength entity dataLength)
    (payload : Payload) : ∃ p, Consumes (readSection entity dataLength payload) w p := by
  unfold readSection
  by_cases hpos : dataLength > 0
  · have hdata : w.length = dataLength.toNat → Consumes (readData dataLength) w w := by
      intro h
      have := readData_consumes w
      rwa [h, Int.toNat_of_nonneg (by omega)] at this
    rw [if_pos hpos]
    cases entity with
    | nullBody | optBody =>
      obtain rfl := List.eq_nil_of_length_eq_zero hw
      exact ⟨_, Consumes.pure _⟩
    | reqHdr | reqBody | resHdr | resBody => exact ⟨_, (hdata hw).map _⟩
  · have hnil : w = [] := by
      refine List.eq_nil_of_length_eq_zero (hw.trans ?_)
      cases entity <;> simp only [sectionLength] <;> omega
    subst hnil
    rw [if_neg hpos]
    exact ⟨_, Consumes.pure _⟩

/-- Sections that are there in full are read in full. -/
theorem readReqDataLoop_reads : ∀ (l : List (Entity × Int)) (payload : Payload) (s : Conn), s.good = true →
    declaredLength l ≤ s.unread.length → ∃ p s', (readReqDataLoop l payload).run s = .ok (p, s') ∧
      s'.unread.length + declaredLength l ≤ s.unread.length
  | [], payload, s, _, _ => ⟨payload, s, rfl, Nat.le_refl _⟩
  | [x], payload, s, _, _ => by
    obtain ⟨p, s', hrun, hle, -⟩ := readReqDataLoop_within [x] payload s
    exact ⟨p, s', hrun, hle⟩
  | (entity, offset) :: next :: rest, payload, s, hg, hlen => by
    rw [declaredLength] at hlen ⊢
    rw [readReqDataLoop]
    by_cases hoff : offset < 0
    · simp only [if_pos hoff, Nat.zero_add] at hlen ⊢
      exact readReqDataLoop_reads (next :: rest) payload s hg hlen
    · simp only [if_neg hoff] at hlen ⊢
      have hw : (s.unread.take (sectionLength entity (next.2 - offset))).length = sectionLength entity (next.2 - offset) := by
        rw [List.length_take]
        omega
      obtain ⟨p, hp⟩ := readSection_consumes hw payload
      rw [run_bind_of_ok (hp s (s.unread.drop (sectionLength entity (next.2 - offset))) hg (List.take_append_drop _ _).symm)]
      obtain ⟨p', s', hrun, hle⟩ := readReqDataLoop_reads (next :: rest) p
        { s with unread := s.unread.drop (sectionLength entity (next.2 - offset)) } hg (by
          simp only [List.length_drop]
          omega)
      simp only [List.length_drop] at hle
      exact ⟨p', s', hrun, by omega⟩

end BitzServer
