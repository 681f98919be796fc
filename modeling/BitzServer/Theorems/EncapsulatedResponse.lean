import BitzServer.Icap.Encapsulated
import BitzServer.Icap.Response

/-!
# The Encapsulated header of a response

What `encapsulated_header_str` prints for a payload that has been set once, against what `send_response` writes. The two agree but
for the `data_offset == 0` test of `update_encapsulated`, which takes a body at the start for no body, and a second header
section for a body.
-/

namespace BitzServer

open Feed

/-- The body entity of a payload. -/
def bodyOf (p : Payload) : Entity :=
  if p.reqBody ≠ [] then .reqBody else if p.resBody ≠ [] then .resBody else .nullBody

/-- The encapsulated bytes `send_response` writes before the section of an entity. -/
def offsetOf (p : Payload) (e : Entity) : Nat :=
  (((contentWrites p).takeWhile (fun w => decide (w.1 ≠ e))).flatMap Prod.snd).length

/-- The entries describe the payload as `send_response` writes it. -/
structure Describes (l : List (Entity × Int)) (p : Payload) : Prop where
  /-- every section is listed with its offset -/
  listed : ∀ w ∈ contentWrites p, (w.1, (offsetOf p w.1 : Int)) ∈ l
  /-- one body entity is listed, the last one -/
  body : ∃ (headers : List (Entity × Int)) (x : Int), l = headers ++ [(bodyOf p, x)] ∧
    (∀ y ∈ headers, y.1 = .reqHdr ∨ y.1 = .resHdr) ∧
    (bodyOf p = .nullBody → x = (p.reqHeader.length + p.resHeader.length : Nat))
  /-- nothing is listed for an empty section -/
  nonempty : ∀ y ∈ l, y.1 ≠ .nullBody → ∃ w ∈ contentWrites p, w.1 = y.1

/-- On a good stream `send_response` writes the sections of the payload behind the status line and the headers and passes them on, and the
header string lists entries that describe them. -/
def DescribesContent (r : Response) : Prop :=
  (∀ s : Conn, s.good = true → s.faults = [] → (sendResponse r).run s = .ok (true, { s with
    sent := s.sent ++ (headBytes r.header ++ (contentWrites r.payload).flatMap Prod.snd)
    flushed := s.sent ++ (headBytes r.header ++ (contentWrites r.payload).flatMap Prod.snd) })) ∧
    ∃ l, r.header.encapsulatedStr = renderEntries l ∧ Describes l r.payload

/-- The payloads for which the `data_offset == 0` test is right: a body comes after a header section, and without a body there
is one header section at most. -/
def BodyTestHolds (p : Payload) : Prop :=
  (p.reqBody ≠ [] ∨ p.resBody ≠ [] → p.reqHeader ≠ [] ∨ p.resHeader ≠ []) ∧
    (p.reqBody = [] ∧ p.resBody = [] → ¬(p.reqHeader ≠ [] ∧ p.resHeader ≠ []))

instance (p : Payload) : Decidable (BodyTestHolds p) := inferInstanceAs (Decidable ((_ → _) ∧ (_ → _)))

namespace EncapsulatedResponseAux

/-- The entry of a section that starts at `n`, if there is one. -/
def sectionEntry (e : Entity) (content : Bytes) (n : Nat) : List (Entity × Int) := if content ≠ [] then [(e, (n : Int))] else []

/-- The start of the last section so far. -/
def lastStart (content : Bytes) (n dataOffset : Nat) : Nat := if content ≠ [] then n else dataOffset

@[simp]
theorem sectionEntry_nil (e : Entity) (n : Nat) : sectionEntry e [] n = [] := rfl

theorem sectionEntry_of_ne (e : Entity) {content : Bytes} (h : content ≠ []) (n : Nat) : sectionEntry e content n = [(e, (n : Int))] :=
  if_pos h

@[simp]
theorem lastStart_nil (n dataOffset : Nat) : lastStart [] n dataOffset = dataOffset := rfl

theorem lastStart_of_ne {content : Bytes} (h : content ≠ []) (n dataOffset : Nat) : lastStart content n dataOffset = n := if_pos h

/-- What starts at 0 is the first section. -/
@[simp]
theorem lastStart_zero (content : Bytes) : lastStart content 0 0 = 0 := ite_self _

/-- A part of `update_encapsulated` adds an entry. -/
theorem updateSection_setEntries (h : Header) (l : List (Entity × Int)) (e : Entity) (content : Bytes) {n : Nat} (dataOffset : Nat)
    (hlt : n + content.length < 2 ^ 31) : Header.updateSection e content (h.setEntries l, n, dataOffset) =
      (h.setEntries (l ++ sectionEntry e content n), n + content.length, lastStart content n dataOffset) := by
  unfold sectionEntry lastStart
  by_cases hc : content = []
  · subst hc
    simp
  · have hu : toUInt32 (n + content.length) = n + content.length := toUInt32_of_lt (by omega)
    rw [Header.updateSection_of_ne hc e _ (by omega), hu, if_pos hc, if_pos hc, Header.setEntries, Header.setEntries,
      List.foldl_append]
    rfl

/-- The last part of `update_encapsulated` adds an entry or not. -/
theorem setNullBody_setEntries (h : Header) (l : List (Entity × Int)) (start : Nat) {n : Nat} (hlt : n < 2 ^ 31) :
    (if start = 0 then (h.setEntries l).setEncapsulated .nullBody (toInt32 n) else h.setEntries l) =
      h.setEntries (l ++ if start = 0 then [(.nullBody, (n : Int))] else []) := by
  by_cases hs : start = 0
  · rw [if_pos hs, if_pos hs, toInt32_of_lt hlt, Header.setEntries, Header.setEntries, List.foldl_append]
    rfl
  · rw [if_neg hs, if_neg hs, List.append_nil]

/-- The entries a payload sets: its sections, and a `null-body` behind them if the last one starts at 0. -/
def entriesOf (p : Payload) : List (Entity × Int) :=
  let l1 := p.reqHeader.length
  let l2 := l1 + p.reqBody.length
  let l3 := l2 + p.resHeader.length
  let l4 := l3 + p.resBody.length
  let start := lastStart p.resBody l3 (lastStart p.resHeader l2 (lastStart p.reqBody l1 (lastStart p.reqHeader 0 0)))
  sectionEntry .reqHdr p.reqHeader 0 ++ sectionEntry .reqBody p.reqBody l1 ++ sectionEntry .resHdr p.resHeader l2 ++
    sectionEntry .resBody p.resBody l3 ++ if start = 0 then [(.nullBody, (l4 : Int))] else []

theorem updateEncapsulated_eq (h : Header) {p : Payload}
    (hlt : p.reqHeader.length + p.reqBody.length + p.resHeader.length + p.resBody.length < 2 ^ 31) :
    h.updateEncapsulated p = h.setEntries (entriesOf p) := by
  have h0 : (h, 0, 0) = (h.setEntries [], 0, 0) := rfl
  unfold Header.updateEncapsulated
  simp only [h0]
  rw [updateSection_setEntries h [] .reqHdr p.reqHeader 0 (by omega), updateSection_setEntries h _ .reqBody p.reqBody _ (by omega),
    updateSection_setEntries h _ .resHdr p.resHeader _ (by omega), updateSection_setEntries h _ .resBody p.resBody _ (by omega)]
  simp only [Nat.zero_add, List.nil_append]
  exact setNullBody_setEntries h _ _ hlt

/-- The entries of sections that follow one another from `n` on. -/
def sectionsFrom : Nat → List (Entity × Bytes) → List (Entity × Int)
  | _, [] => []
  | n, (e, content) :: rest => sectionEntry e content n ++ sectionsFrom (n + content.length) rest

theorem mem_sectionEntry {e : Entity} {content : Bytes} {n : Nat} {y : Entity × Int} :
    y ∈ sectionEntry e content n ↔ content ≠ [] ∧ y = (e, (n : Int)) := by
  rw [sectionEntry, List.mem_ite_nil_right, List.mem_singleton]

/-- Sections start behind what comes before them and before what comes behind them. -/
theorem sectionsFrom_bounds : ∀ (l : List (Entity × Bytes)) (n : Nat), ∀ y ∈ sectionsFrom n l,
    (n : Int) ≤ y.2 ∧ y.2 < (n + (l.flatMap Prod.snd).length : Nat)
  | [], _, _, hy => nomatch hy
  | (e, content) :: rest, n, y, hy => by
    rw [List.flatMap_cons, List.length_append]
    rcases List.mem_append.mp hy with hy | hy
    · obtain ⟨hne, rfl⟩ := mem_sectionEntry.mp hy
      have := List.length_pos_iff.mpr hne
      dsimp only
      omega
    · have := sectionsFrom_bounds rest (n + content.length) y hy
      dsimp only
      omega

theorem sectionsFrom_sorted : ∀ (l : List (Entity × Bytes)) (n : Nat), (sectionsFrom n l).Pairwise (fun a b => a.2 < b.2)
  | [], _ => List.Pairwise.nil
  | (e, content) :: rest, n => by
    refine List.pairwise_append.mpr ⟨?_, sectionsFrom_sorted rest _, fun a ha b hb => ?_⟩
    · rw [sectionEntry]
      split
      · exact List.pairwise_singleton ..
      · exact List.Pairwise.nil
    · obtain ⟨hne, rfl⟩ := mem_sectionEntry.mp ha
      have := List.length_pos_iff.mpr hne
      have := (sectionsFrom_bounds rest _ b hb).1
      dsimp only
      omega

/-- Sections are listed under their entities, in order, some left out. -/
theorem sectionsFrom_entities : ∀ (l : List (Entity × Bytes)) (n : Nat),
    ((sectionsFrom n l).map Prod.fst).Sublist (l.map Prod.fst)
  | [], _ => List.Sublist.slnil
  | (e, content) :: rest, n => by
    rw [sectionsFrom, List.map_append, List.map_cons, sectionEntry]
    have ih := sectionsFrom_entities rest (n + content.length)
    split
    · exact ih.cons_cons e
    · exact ih.cons e

/-- The sections of a payload, in order. -/
def sectionsOf (p : Payload) : List (Entity × Bytes) :=
  [(.reqHdr, p.reqHeader), (.reqBody, p.reqBody), (.resHdr, p.resHeader), (.resBody, p.resBody)]

/-- The entries are those of the sections, and a `null-body` behind all of them or not. -/
theorem entriesOf_sections (p : Payload) : entriesOf p = sectionsFrom 0 (sectionsOf p) ∨
    entriesOf p = sectionsFrom 0 (sectionsOf p) ++ [(.nullBody, (((sectionsOf p).flatMap Prod.snd).length : Int))] := by
  have hlen : ((sectionsOf p).flatMap Prod.snd).length =
      p.reqHeader.length + p.reqBody.length + p.resHeader.length + p.resBody.length := by
    simp [sectionsOf, Nat.add_assoc]
  have hsections : sectionsFrom 0 (sectionsOf p) = sectionEntry .reqHdr p.reqHeader 0 ++ sectionEntry .reqBody p.reqBody p.reqHeader.length ++
      sectionEntry .resHdr p.resHeader (p.reqHeader.length + p.reqBody.length) ++
      sectionEntry .resBody p.resBody (p.reqHeader.length + p.reqBody.length + p.resHeader.length) := by
    simp [sectionsFrom, sectionsOf]
  rw [hsections, hlen]
  unfold entriesOf
  dsimp only
  split
  · exact .inr rfl
  · exact .inl (List.append_nil _)

/-- Without a section the last one starts at 0. -/
theorem entriesOf_ne_nil (p : Payload) : entriesOf p ≠ [] := by
  intro h
  simp only [entriesOf, List.append_eq_nil_iff, sectionEntry, lastStart, ite_eq_right_iff] at h
  simp at h
  obtain ⟨⟨⟨⟨-, h2⟩, h3⟩, h4⟩, h5⟩ := h
  simp [h2, h3, h4] at h5

/-- The entries have different entities and increasing offsets. -/
theorem entriesOf_sorted (p : Payload) : entriesOf p ≠ [] ∧ ((entriesOf p).map Prod.fst).Nodup ∧ (∀ x ∈ entriesOf p, 0 ≤ x.2) ∧
    (entriesOf p).Pairwise (fun a b => a.2 < b.2) := by
  have hbounds := sectionsFrom_bounds (sectionsOf p) 0
  have hsorted := sectionsFrom_sorted (sectionsOf p) 0
  have hentities := sectionsFrom_entities (sectionsOf p) 0
  refine ⟨entriesOf_ne_nil p, ?_⟩
  rcases entriesOf_sections p with h | h
  · rw [h]
    exact ⟨(hentities.nodup (by simp [sectionsOf])), fun x hx => (hbounds x hx).1, hsorted⟩
  · rw [h]
    refine ⟨?_, fun x hx => ?_, List.pairwise_append.mpr ⟨hsorted, List.pairwise_singleton .., fun a ha b hb => ?_⟩⟩
    · rw [List.map_append]
      exact (hentities.append_right _).nodup (by simp [sectionsOf])
    · rcases List.mem_append.mp hx with hx | hx
      · exact (hbounds x hx).1
      · rw [List.mem_singleton.mp hx]
        exact Int.natCast_nonneg _
    · rw [List.mem_singleton.mp hb]
      simpa using (hbounds a ha).2

/-- A fresh header prints the entries a payload sets. -/
theorem printed_updateEncapsulated {h : Header} (hfresh : ∀ e, h.encapsulated e = -1) {p : Payload}
    (hlt : p.reqHeader.length + p.reqBody.length + p.resHeader.length + p.resBody.length < 2 ^ 31) :
    (h.updateEncapsulated p).printed = entriesOf p := by
  obtain ⟨hne, hnd, hnn, hsorted⟩ := entriesOf_sorted p
  rw [updateEncapsulated_eq h hlt]
  exact printed_of_lists (lists_setEntries (fun e => by rw [hfresh]; decide) hnd hnn) hsorted hne

/-- The last entry is the body exactly if the test is right. -/
theorem bodyTestHolds_of_describes {p : Payload} (hone : p.reqBody = [] ∨ p.resBody = []) (h : Describes (entriesOf p) p) :
    BodyTestHolds p := by
  obtain ⟨headers, x, hbody, -⟩ := h.body
  replace hbody := congrArg List.getLast? hbody
  rw [List.getLast?_concat] at hbody
  refine ⟨fun hbodies => ?_, fun hnone hboth => ?_⟩
  · -- a body with nothing before it: the last entry would be `null-body`
    by_contra hheaders
    obtain ⟨ha, hc⟩ : p.reqHeader = [] ∧ p.resHeader = [] := by simpa [not_or] using hheaders
    rcases hone with hb | hd
    · have hd := hbodies.resolve_left (not_not_intro hb)
      simp [entriesOf, sectionEntry, lastStart, bodyOf, ha, hb, hc, hd] at hbody
    · have hb := hbodies.resolve_right (not_not_intro hd)
      simp [entriesOf, sectionEntry, lastStart, bodyOf, ha, hb, hc, hd] at hbody
  · -- two header sections: the last entry would be the second
    obtain ⟨hb, hd⟩ := hnone
    obtain ⟨ha, hc⟩ := hboth
    simp [entriesOf, sectionEntry, lastStart, bodyOf, ha, hb, hc, hd] at hbody

/-- The entries of the header sections, which come before the one of the body. -/
def headerEntries (p : Payload) : List (Entity × Int) :=
  sectionEntry .reqHdr p.reqHeader 0 ++ sectionEntry .resHdr p.resHeader p.reqHeader.length

theorem headerEntries_header (p : Payload) : ∀ y ∈ headerEntries p, y.1 = .reqHdr ∨ y.1 = .resHdr := by
  intro y hy
  rcases List.mem_append.mp hy with hy | hy
  · obtain ⟨-, rfl⟩ := mem_sectionEntry.mp hy
    exact .inl rfl
  · obtain ⟨-, rfl⟩ := mem_sectionEntry.mp hy
    exact .inr rfl

/-- The entry of the body, which starts behind the header sections. -/
def bodyEntry (p : Payload) : Entity × Int := (bodyOf p, ((p.reqHeader.length + p.resHeader.length : Nat) : Int))

/-- Where the test is right, the entries of a payload are those of its header sections and the one of its body. -/
theorem entriesOf_eq {p : Payload} (hone : p.reqBody = [] ∨ p.resBody = []) (horder : p.reqBody ≠ [] → p.resHeader = [])
    (hp : BodyTestHolds p) : entriesOf p = headerEntries p ++ [bodyEntry p] := by
  unfold entriesOf headerEntries bodyEntry
  by_cases hb : p.reqBody = []
  · by_cases hd : p.resBody = []
    · -- no body: a second header section would start behind the first
      have hbody : bodyOf p = .nullBody := by simp [bodyOf, hb, hd]
      have hstart : lastStart p.resHeader p.reqHeader.length 0 = 0 := by
        by_cases ha : p.reqHeader = []
        · simp [ha]
        · have hc : p.resHeader = [] := by
            by_contra hc
            exact hp.2 ⟨hb, hd⟩ ⟨ha, hc⟩
          simp [hc]
      simp [hb, hd, hbody, hstart]
    · -- the response body starts behind a header section
      have hbody : bodyOf p = .resBody := by simp [bodyOf, hb, hd]
      have hheaders : p.reqHeader = [] → p.resHeader ≠ [] := fun ha => (hp.1 (.inr hd)).resolve_left (not_not_intro ha)
      simpa [hb, hbody, sectionEntry_of_ne _ hd, lastStart_of_ne hd] using hheaders
  · -- the request body starts behind the request header, the only header section
    have hc := horder hb
    have hd := hone.resolve_left hb
    have ha := (hp.1 (.inl hb)).resolve_right (not_not_intro hc)
    have hbody : bodyOf p = .reqBody := by simp [bodyOf, hb]
    simp [hc, hd, hbody, sectionEntry_of_ne _ hb, lastStart_of_ne hb, ha]

theorem mem_contentWrites {p : Payload} {w : Entity × Bytes} : w ∈ contentWrites p ↔
    p.reqHeader ≠ [] ∧ w = (.reqHdr, p.reqHeader) ∨ p.reqBody ≠ [] ∧ w = (.reqBody, chunkedWire p.reqBody) ∨
      p.resHeader ≠ [] ∧ w = (.resHdr, p.resHeader) ∨ p.resBody ≠ [] ∧ w = (.resBody, chunkedWire p.resBody) := by
  simp only [contentWrites, List.mem_append, List.mem_ite_nil_right, List.mem_singleton]

/-- A section that is written has its entry. -/
theorem entry_of_written {p : Payload} (hone : p.reqBody = [] ∨ p.resBody = []) (horder : p.reqBody ≠ [] → p.resHeader = []) :
    ∀ w ∈ contentWrites p, (w.1, (offsetOf p w.1 : Int)) ∈ headerEntries p ++ [bodyEntry p] := by
  intro w hw
  rcases mem_contentWrites.mp hw with ⟨ha, rfl⟩ | ⟨hb, rfl⟩ | ⟨hc, rfl⟩ | ⟨hd, rfl⟩
  · have hoffset : offsetOf p .reqHdr = 0 := by simp [offsetOf, contentWrites, ha]
    simp [headerEntries, sectionEntry_of_ne _ ha, hoffset]
  · have hoffset : offsetOf p .reqBody = p.reqHeader.length := by
      by_cases ha : p.reqHeader = [] <;> simp [offsetOf, contentWrites, ha, hb]
    simp [bodyEntry, bodyOf, hb, horder hb, hoffset]
  · have hb : p.reqBody = [] := by
      by_contra hb
      exact hc (horder hb)
    have hoffset : offsetOf p .resHdr = p.reqHeader.length := by
      by_cases ha : p.reqHeader = [] <;> simp [offsetOf, contentWrites, ha, hb, hc]
    simp [headerEntries, sectionEntry_of_ne _ hc, hoffset]
  · have hb := hone.resolve_right hd
    have hoffset : offsetOf p .resBody = p.reqHeader.length + p.resHeader.length := by
      by_cases ha : p.reqHeader = [] <;> by_cases hc : p.resHeader = [] <;> simp [offsetOf, contentWrites, ha, hb, hc, hd]
    simp [bodyEntry, bodyOf, hb, hd, hoffset]

/-- An entry that is no `null-body` is the one of a section that is written. -/
theorem written_of_entry (p : Payload) : ∀ y ∈ headerEntries p ++ [bodyEntry p], y.1 ≠ .nullBody →
    ∃ w ∈ contentWrites p, w.1 = y.1 := by
  intro y hy hbody
  rcases List.mem_append.mp hy with hy | hy
  · rcases List.mem_append.mp hy with hy | hy
    · obtain ⟨ha, rfl⟩ := mem_sectionEntry.mp hy
      exact ⟨_, mem_contentWrites.mpr (.inl ⟨ha, rfl⟩), rfl⟩
    · obtain ⟨hc, rfl⟩ := mem_sectionEntry.mp hy
      exact ⟨_, mem_contentWrites.mpr (.inr (.inr (.inl ⟨hc, rfl⟩))), rfl⟩
  · rw [List.mem_singleton.mp hy, bodyEntry] at hbody ⊢
    by_cases hb : p.reqBody = []
    · by_cases hd : p.resBody = []
      · simp [bodyOf, hb, hd] at hbody
      · exact ⟨_, mem_contentWrites.mpr (.inr (.inr (.inr ⟨hd, rfl⟩))), by simp [bodyOf, hb, hd]⟩
    · exact ⟨_, mem_contentWrites.mpr (.inr (.inl ⟨hb, rfl⟩)), by simp [bodyOf, hb]⟩

/-- Where the test is right, the entries describe the payload. -/
theorem describes_entriesOf {p : Payload} (hone : p.reqBody = [] ∨ p.resBody = []) (horder : p.reqBody ≠ [] → p.resHeader = [])
    (hp : BodyTestHolds p) : Describes (entriesOf p) p := by
  rw [entriesOf_eq hone horder hp]
  exact ⟨entry_of_written hone horder, ⟨headerEntries p, _, rfl, headerEntries_header p, fun _ => rfl⟩, written_of_entry p⟩

/-- The header string of a fresh response with a payload prints the entries of the payload. -/
theorem encapsulatedStr_setPayload {r : Response} (hfresh : ∀ e, r.header.encapsulated e = -1) {p : Payload}
    (hlt : p.reqHeader.length + p.reqBody.length + p.resHeader.length + p.resBody.length < 2 ^ 31) :
    (r.setPayload p).header.encapsulatedStr = renderEntries (entriesOf p) := by
  rw [← printed_updateEncapsulated hfresh hlt]
  exact encapsulatedStr_eq _

end EncapsulatedResponseAux

open EncapsulatedResponseAux

/-- The header string of a fresh response describes the payload that has been set exactly if the test is right. -/
theorem describesContent_iff {r : Response} (hfresh : ∀ e, r.header.encapsulated e = -1) {p : Payload}
    (hone : p.reqBody = [] ∨ p.resBody = []) (horder : p.reqBody ≠ [] → p.resHeader = [])
    (hlt : p.reqHeader.length + p.reqBody.length + p.resHeader.length + p.resBody.length < 2 ^ 31) :
    DescribesContent (r.setPayload p) ↔ BodyTestHolds p := by
  have hstr := encapsulatedStr_setPayload hfresh hlt
  constructor
  · rintro ⟨-, l, hl, hdesc⟩
    obtain rfl := renderEntries_injective (hstr.symm.trans hl)
    exact bodyTestHolds_of_describes hone hdesc
  · exact fun hp => ⟨fun s hg hf => sendResponse_run (r.setPayload p) (by show p.reqBody.length < _; omega)
      (by show p.resBody.length < _; omega) hg hf, _, hstr, describes_entriesOf hone horder hp⟩

/-- A response with the given status and no plain headers. -/
def freshResponse (status : Status) : Response :=
  { header := { Header.new with protocol := bytes "ICAP/1.0", status := status }, payload := Payload.empty }

/-- The first example of the samples: a request header and a request body. -/
theorem describesContent_reqBody : DescribesContent ((freshResponse .ok).setPayload
    { Payload.empty with reqHeader := bytes "POST / HTTP/1.1", reqBody := bytes "a" }) :=
  (describesContent_iff (fun _ => rfl) (.inr rfl) (fun _ => rfl) (by decide)).mpr (by decide)

/-- A body without a header section is listed with a `null-body` behind it. -/
theorem describesContent_false :
    ¬∀ (r : Response) (p : Payload), (∀ e, r.header.encapsulated e = -1) → p.reqBody = [] ∨ p.resBody = [] →
      (p.reqBody ≠ [] → p.resHeader = []) →
      p.reqHeader.length + p.reqBody.length + p.resHeader.length + p.resBody.length < 2 ^ 31 →
      DescribesContent (r.setPayload p) := by
  intro hall
  obtain ⟨-, l, hl, hdesc⟩ := hall (freshResponse .ok) { Payload.empty with reqBody := bytes "a" } (fun _ => rfl) (.inr rfl)
    (fun _ => rfl) (by decide)
  obtain rfl := renderEntries_injective
    ((encapsulatedStr_setPayload (r := freshResponse .ok) (fun _ => rfl) (by decide)).symm.trans hl)
  exact absurd (bodyTestHolds_of_describes (.inr rfl) hdesc) (by decide)

end BitzServer
