import BitzServer.Theorems.EncapsulatedResponse

/-!
# Payloads set one after the other

`update_encapsulated` sets the offsets of the sections a payload has, and leaves the others as they are: what an earlier payload has
set stays listed until a later one sets it again.
-/

namespace BitzServer

namespace Payload

/-- The section that an entity stands for. -/
def content (p : Payload) : Entity → Bytes
  | .reqHdr => p.reqHeader
  | .reqBody => p.reqBody
  | .resHdr => p.resHeader
  | .resBody => p.resBody
  | .nullBody | .optBody => []

/-- The length of the sections before the one of an entity. -/
def before (p : Payload) : Entity → Nat
  | .reqHdr => 0
  | .reqBody => p.reqHeader.length
  | .resHdr => p.reqHeader.length + p.reqBody.length
  | .resBody => p.reqHeader.length + p.reqBody.length + p.resHeader.length
  | .nullBody | .optBody => p.reqHeader.length + p.reqBody.length + p.resHeader.length + p.resBody.length

/-- The start of the last section that is not empty. -/
def lastStart (p : Payload) : Nat :=
  if p.resBody ≠ [] then p.before .resBody
  else if p.resHeader ≠ [] then p.before .resHdr
  else if p.reqBody ≠ [] then p.before .reqBody
  else 0

/-- The offset a payload sets for an entity, if it sets one. -/
def offset? (p : Payload) (e : Entity) : Option Int :=
  if e = .nullBody then if toUInt32 p.lastStart = 0 then some (toInt32 (p.before .nullBody)) else none
  else if p.content e ≠ [] then some (toInt32 (p.before e))
  else none

end Payload

namespace PayloadHistoryAux

theorem toUInt32_add (m n : Nat) : toUInt32 (toUInt32 m + n) = toUInt32 (m + n) := Nat.mod_add_mod m (2 ^ 32) n

theorem toInt32_toUInt32 (n : Nat) : toInt32 (toUInt32 n) = toInt32 n := by
  unfold toInt32 toUInt32
  rw [Int.natCast_mod, Nat.cast_pow, Nat.cast_ofNat]
  exact Int.emod_bmod ..

/-- What a payload sets. -/
theorem updateEncapsulated_encapsulated (h : Header) (p : Payload) (e : Entity) :
    (h.updateEncapsulated p).encapsulated e = (p.offset? e).getD (h.encapsulated e) := by
  have hlt : ∀ n, toUInt32 n < 2 ^ 32 := fun n => Nat.mod_lt n (Nat.two_pow_pos 32)
  have h0 : ((h, 0, 0) : Header × Nat × Nat).2.1 = toUInt32 0 := rfl
  have hlen1 : (Header.updateSection .reqHdr p.reqHeader (h, 0, 0)).2.1 = toUInt32 (p.before .reqBody) := by
    rw [Header.updateSection_dataLength (h0 ▸ hlt 0), Nat.zero_add]
    rfl
  generalize hs1 : Header.updateSection .reqHdr p.reqHeader (h, 0, 0) = s1 at hlen1
  have hlen2 : (Header.updateSection .reqBody p.reqBody s1).2.1 = toUInt32 (p.before .resHdr) := by
    rw [Header.updateSection_dataLength (hlen1 ▸ hlt _), hlen1, toUInt32_add]
    rfl
  generalize hs2 : Header.updateSection .reqBody p.reqBody s1 = s2 at hlen2
  have hlen3 : (Header.updateSection .resHdr p.resHeader s2).2.1 = toUInt32 (p.before .resBody) := by
    rw [Header.updateSection_dataLength (hlen2 ▸ hlt _), hlen2, toUInt32_add]
    rfl
  generalize hs3 : Header.updateSection .resHdr p.resHeader s2 = s3 at hlen3
  have hlen4 : (Header.updateSection .resBody p.resBody s3).2.1 = toUInt32 (p.before .nullBody) := by
    rw [Header.updateSection_dataLength (hlen3 ▸ hlt _), hlen3, toUInt32_add]
    rfl
  generalize hs4 : Header.updateSection .resBody p.resBody s3 = s4 at hlen4
  have hstart : s4.2.2 = toUInt32 p.lastStart := by
    rw [← hs4, Header.updateSection_dataOffset, hlen3, ← hs3, Header.updateSection_dataOffset, hlen2, ← hs2,
      Header.updateSection_dataOffset, hlen1, ← hs1, Header.updateSection_dataOffset, ite_self]
    simp only [Payload.lastStart, apply_ite toUInt32, ne_eq, ite_not]
    rfl
  have hsections : ∀ e, s4.1.encapsulated e = if p.content e ≠ [] then toInt32 (p.before e) else h.encapsulated e := by
    intro e
    rw [← hs4, Header.updateSection_encapsulated, hlen3, ← hs3, Header.updateSection_encapsulated, hlen2, ← hs2,
      Header.updateSection_encapsulated, hlen1, ← hs1, Header.updateSection_encapsulated, h0]
    simp only [toInt32_toUInt32]
    cases e with
    | reqBody => by_cases hb : p.reqBody = [] <;> simp [Payload.content, Payload.before, hb]
    | reqHdr | resHdr | resBody | nullBody | optBody => simp [Payload.content, Payload.before]
  have hupdate : h.updateEncapsulated p =
      if s4.2.2 = 0 then s4.1.setEncapsulated .nullBody (toInt32 s4.2.1) else s4.1 := by
    rw [← hs4, ← hs3, ← hs2, ← hs1]
    rfl
  rw [hupdate, hstart, hlen4, toInt32_toUInt32]
  unfold Payload.offset?
  by_cases he : e = .nullBody
  · subst he
    rw [if_pos rfl]
    by_cases hzero : toUInt32 p.lastStart = 0
    · rw [if_pos hzero, if_pos hzero, Header.setEncapsulated_encapsulated, if_pos rfl, Option.getD_some]
    · rw [if_neg hzero, if_neg hzero, hsections, if_neg (by simp [Payload.content]), Option.getD_none]
  · rw [if_neg he]
    have hset : (if toUInt32 p.lastStart = 0 then s4.1.setEncapsulated .nullBody (toInt32 (p.before .nullBody)) else s4.1).encapsulated e =
        s4.1.encapsulated e := by
      split
      · rw [Header.setEncapsulated_encapsulated, if_neg he]
      · rfl
    rw [hset, hsections]
    by_cases hne : p.content e ≠ []
    · rw [if_pos hne, if_pos hne, Option.getD_some]
    · rw [if_neg hne, if_neg hne, Option.getD_none]

/-- Every payload sets the offset 0: of its first section, or of the `null-body`. -/
theorem exists_offset_zero (p : Payload) : ∃ e, p.offset? e = some 0 := by
  by_cases ha : p.reqHeader = []
  · by_cases hb : p.reqBody = []
    · by_cases hc : p.resHeader = []
      · by_cases hd : p.resBody = []
        · exact ⟨.nullBody, by simp [Payload.offset?, Payload.lastStart, Payload.before, ha, hb, hc, hd, toUInt32]⟩
        · exact ⟨.resBody, by simp [Payload.offset?, Payload.content, Payload.before, ha, hb, hc, hd]⟩
      · exact ⟨.resHdr, by simp [Payload.offset?, Payload.content, Payload.before, ha, hb, hc]⟩
    · exact ⟨.reqBody, by simp [Payload.offset?, Payload.content, Payload.before, ha, hb]⟩
  · exact ⟨.reqHdr, by simp [Payload.offset?, Payload.content, Payload.before, ha]⟩

end PayloadHistoryAux

open PayloadHistoryAux

/-- A response that lists nothing, as a new one does. -/
def Response.Fresh (r : Response) : Prop := ∀ e, r.header.encapsulated e = -1

/-- A response made from a status is fresh. -/
theorem ofStatus_fresh {status : Status} {r : Response} {s s' : Conn} (h : (Response.ofStatus status).run s = .ok (r, s')) : r.Fresh := by
  obtain ⟨r', s1, hrun, -, -, hnew, -⟩ := Response.ofStatus_returns status s
  obtain ⟨rfl, -⟩ := Prod.mk.inj (Except.ok.inj (hrun.symm.trans h))
  exact fun e => congrFun hnew e

/-- Set the payloads, one after the other. -/
def Response.setPayloads (r : Response) (payloads : List Payload) : Response := payloads.foldl Response.setPayload r

/-- The offset of an entity that has been set last: by one of the payloads, or before all of them. -/
def lastOffset (r : Response) (payloads : List Payload) (e : Entity) : Int :=
  ((payloads.filterMap (fun p => p.offset? e)).getLast?).getD (r.header.encapsulated e)

/-- An entity that the last payload does not set has no offset from before, or one that is negative. -/
def NothingStale (r : Response) (payloads : List Payload) (last : Payload) : Prop :=
  ∀ e, last.offset? e = none → lastOffset r payloads e < 0

namespace PayloadHistoryAux

/-- After the payloads each entity has the offset that has been set last. -/
theorem setPayloads_encapsulated (e : Entity) : ∀ (payloads : List Payload) (r : Response),
    (r.setPayloads payloads).header.encapsulated e = lastOffset r payloads e
  | [], _ => rfl
  | p :: payloads, r => by
    have hset : (r.setPayload p).header.encapsulated e = (p.offset? e).getD (r.header.encapsulated e) :=
      updateEncapsulated_encapsulated r.header.toHeader p e
    have ih := setPayloads_encapsulated e payloads (r.setPayload p)
    refine ih.trans ?_
    rw [lastOffset, lastOffset, hset, List.filterMap_cons]
    cases p.offset? e with
    | none => rfl
    | some x =>
      rw [Option.getD_some, List.getLast?_cons, Option.getD_some]

end PayloadHistoryAux

/-- The header string after a sequence of payloads is that of a fresh response with the last one exactly if nothing stale is left. -/
theorem setPayloads_str_iff {r fresh : Response} (hfresh : fresh.Fresh) (payloads : List Payload) (last : Payload) :
    (r.setPayloads (payloads ++ [last])).header.encapsulatedStr = (fresh.setPayload last).header.encapsulatedStr ↔
      NothingStale r payloads last := by
  have hafter : ∀ e, (r.setPayloads (payloads ++ [last])).header.encapsulated e = (last.offset? e).getD (lastOffset r payloads e) := by
    intro e
    rw [← setPayloads_encapsulated, Response.setPayloads, List.foldl_append]
    exact updateEncapsulated_encapsulated _ last e
  have hnew : ∀ e, (fresh.setPayload last).header.encapsulated e = (last.offset? e).getD (-1) := by
    intro e
    rw [← hfresh e]
    exact updateEncapsulated_encapsulated _ last e
  obtain ⟨e₀, he₀⟩ := exists_offset_zero last
  have hne : ∀ {h : Header} {x : Int}, h.encapsulated e₀ = (last.offset? e₀).getD x → h.listed ≠ [] := by
    intro h x heq
    rw [he₀, Option.getD_some] at heq
    exact List.ne_nil_of_mem (Header.mem_listed.mpr ⟨heq, le_refl _⟩ : (e₀, 0) ∈ h.listed)
  rw [Header.encapsulatedStr_of_listed (hne (hafter e₀)), Header.encapsulatedStr_of_listed (hne (hnew e₀)),
    renderEntries_injective.eq_iff, Header.listed_eq_iff]
  simp only [hafter, hnew]
  constructor
  · intro h e hnone
    by_contra hnn
    have := h e (.inl (by rw [hnone, Option.getD_none]; omega))
    rw [hnone, Option.getD_none, Option.getD_none] at this
    omega
  · intro h e hor
    cases hoff : last.offset? e with
    | some x => rfl
    | none =>
      have := h e hoff
      rw [hoff, Option.getD_none, Option.getD_none] at hor
      omega

/-- A second payload with the same sections. -/
theorem setPayloads_str_sameSections :
    ((freshResponse .ok).setPayloads ([{ Payload.empty with reqHeader := bytes "GET / HTTP/1.1" }] ++
      [{ Payload.empty with reqHeader := bytes "GET /index.html HTTP/1.1" }])).header.encapsulatedStr =
      ((freshResponse .ok).setPayload { Payload.empty with reqHeader := bytes "GET /index.html HTTP/1.1" }).header.encapsulatedStr :=
  (setPayloads_str_iff (fun _ => rfl) _ _).mpr fun e => by cases e <;> decide

/-- The offset of a request header stays listed in front of a response. -/
theorem setPayloads_str_false : ¬∀ (r fresh : Response) (payloads : List Payload) (last : Payload), fresh.Fresh →
    (r.setPayloads (payloads ++ [last])).header.encapsulatedStr = (fresh.setPayload last).header.encapsulatedStr := by
  intro h
  have hstale := (setPayloads_str_iff (fun _ => rfl) _ _).mp (h (freshResponse .ok) (freshResponse .ok)
    [{ Payload.empty with reqHeader := bytes "GET / HTTP/1.1" }] { Payload.empty with resHeader := bytes "HTTP/1.1 200 OK" } fun _ => rfl)
  exact absurd (hstale .reqHdr (by decide)) (by decide)

end BitzServer
