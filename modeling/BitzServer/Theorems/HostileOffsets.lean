import BitzServer.Icap.Encapsulated
import BitzServer.Icap.ReqData
import Mathlib.Order.Bounds.Basic

/-!
# Hostile offsets

Which reads `read_req_data` makes is decided by the offsets alone, before the first byte is read: the sections with their
`data_length`, then a body in chunks or none. Whatever the offsets are, the lengths add up to the distance between two of them.
-/

namespace BitzServer

open Feed

/-! ## The reads -/

/-- The sections `read_req_data` reads with the `data_length` it computes for each. -/
def rawSections : List (Entity × Int) → List (Entity × Int)
  | [] => []
  | [_] => []
  | (entity, offset) :: next :: rest =>
    if offset < 0 then rawSections (next :: rest) else (entity, next.2 - offset) :: rawSections (next :: rest)

/-- The body `read_req_data` reads in chunks. -/
def chunkedBody (l : List (Entity × Int)) : Option Entity :=
  match l.getLast? with
  | some (entity, offset) => if 0 ≤ offset ∧ (entity = .reqBody ∨ entity = .resBody) then some entity else none
  | none => none

/-- Read the sections, one after the other. -/
def readSections (sections : List (Entity × Int)) (payload : Payload) : SockM Payload :=
  sections.foldlM (fun payload x => readSection x.1 x.2 payload) payload

/-- Read the body, if there is one. -/
def readBody : Option Entity → Payload → SockM Payload
  | some entity, payload => readLast entity payload
  | none, payload => pure payload

/-- `attach_encapsulated` for one text after the other. -/
def Header.attachLists (h : Header) (texts : List Bytes) : Except Fault Header :=
  texts.foldlM (fun h text => (h.attachEncapsulated text).map Prod.fst) h

namespace HostileOffsetsAux

/-- The loop of `read_req_data` makes these reads. -/
theorem readReqDataLoop_eq : ∀ (l : List (Entity × Int)) (payload : Payload),
    readReqDataLoop l payload = (do let payload ← readSections (rawSections l) payload; readBody (chunkedBody l) payload)
  | [], payload => rfl
  | [(entity, offset)], payload => by
    have hbody : chunkedBody [(entity, offset)] =
        if 0 ≤ offset ∧ (entity = .reqBody ∨ entity = .resBody) then some entity else none := rfl
    rw [readReqDataLoop, rawSections, readSections, List.foldlM_nil, pure_bind, hbody]
    by_cases hoff : offset < 0
    · rw [if_pos hoff, if_neg (by omega)]
      rfl
    · rw [if_neg hoff]
      cases entity with
      | reqBody | resBody => rw [if_pos ⟨by omega, by simp⟩, readBody]
      | nullBody | optBody | reqHdr | resHdr =>
        rw [if_neg (by simp)]
        rfl
  | (entity, offset) :: next :: rest, payload => by
    have hbody : chunkedBody ((entity, offset) :: next :: rest) = chunkedBody (next :: rest) := by
      unfold chunkedBody
      rw [List.getLast?_cons_cons]
    rw [readReqDataLoop, rawSections, hbody]
    by_cases hoff : offset < 0
    · rw [if_pos hoff, if_pos hoff]
      exact readReqDataLoop_eq (next :: rest) payload
    · rw [if_neg hoff, if_neg hoff, readSections, List.foldlM_cons, bind_assoc]
      exact congrArg _ (funext fun p => readReqDataLoop_eq (next :: rest) p)

/-! ## The lengths -/

/-- Negative offsets before the others are passed over. -/
theorem rawSections_append {low : List (Entity × Int)} (hlow : ∀ x ∈ low, x.2 < 0) (l : List (Entity × Int)) :
    rawSections (low ++ l) = rawSections l := by
  induction low with
  | nil => rfl
  | cons x low ih =>
    have hrest := ih fun y hy => hlow y (List.mem_cons_of_mem _ hy)
    rw [List.cons_append]
    cases hnext : low ++ l with
    | nil =>
      obtain ⟨-, rfl⟩ := List.append_eq_nil_iff.mp hnext
      rfl
    | cons next rest =>
      rw [rawSections, if_pos (hlow x List.mem_cons_self), ← hnext]
      exact hrest

/-- The lengths between offsets that are not negative telescope. -/
theorem sum_rawSections : ∀ (l : List (Entity × Int)) (x : Entity × Int), (∀ y ∈ x :: l, 0 ≤ y.2) →
    ((rawSections (x :: l)).map Prod.snd).sum = ((x :: l).getLast (List.cons_ne_nil x l)).2 - x.2
  | [], x, _ => by simp [rawSections]
  | next :: rest, x, h => by
    have hx := h x List.mem_cons_self
    have ih := sum_rawSections rest next fun y hy => h y (List.mem_cons_of_mem _ hy)
    rw [rawSections, if_neg (by omega), List.map_cons, List.sum_cons, ih, List.getLast_cons (List.cons_ne_nil next rest)]
    omega

/-- A length is the distance of an offset that is not negative to a later one. -/
theorem exists_of_mem_rawSections : ∀ {l : List (Entity × Int)}, l.Pairwise (fun a b => a.2 ≤ b.2) → ∀ {x : Entity × Int},
    x ∈ rawSections l → ∃ a ∈ l, ∃ b ∈ l, 0 ≤ a.2 ∧ a.2 ≤ b.2 ∧ x.2 = b.2 - a.2
  | [], _, _, hx => absurd hx (by simp [rawSections])
  | [_], _, _, hx => absurd hx (by simp [rawSections])
  | (entity, offset) :: next :: rest, hl, x, hx => by
    obtain ⟨hhead, htail⟩ := List.pairwise_cons.mp hl
    have hlater : x ∈ rawSections (next :: rest) → ∃ a ∈ (entity, offset) :: next :: rest, ∃ b ∈ (entity, offset) :: next :: rest,
        0 ≤ a.2 ∧ a.2 ≤ b.2 ∧ x.2 = b.2 - a.2 := by
      intro hx
      obtain ⟨a, ha, b, hb, hab⟩ := exists_of_mem_rawSections htail hx
      exact ⟨a, List.mem_cons_of_mem _ ha, b, List.mem_cons_of_mem _ hb, hab⟩
    rw [rawSections] at hx
    by_cases hoff : offset < 0
    · rw [if_pos hoff] at hx
      exact hlater hx
    · rw [if_neg hoff] at hx
      rcases List.mem_cons.mp hx with rfl | hx
      · exact ⟨(entity, offset), by simp, next, by simp, not_lt.mp hoff, hhead next (by simp), rfl⟩
      · exact hlater hx

/-! ## The bytes -/

/-- A section takes no more bytes than its length. -/
theorem readSection_run (entity : Entity) (dataLength : Int) (payload : Payload) (s : Conn) : ∃ p s',
    (readSection entity dataLength payload).run s = .ok (p, s') ∧ s.unread.length ≤ s'.unread.length + dataLength.toNat := by
  obtain ⟨d, s', hread, -, htakes⟩ := readData_run dataLength s
  unfold readSection
  by_cases hpos : dataLength > 0
  · rw [if_pos hpos]
    cases entity with
    | nullBody | optBody => exact ⟨payload, s, rfl, Nat.le_add_right _ _⟩
    | reqBody | reqHdr | resBody | resHdr => exact ⟨_, s', by rw [run_bind_of_ok hread]; rfl, htakes⟩
  · rw [if_neg hpos]
    exact ⟨payload, s, rfl, Nat.le_add_right _ _⟩

/-- Sections take no more bytes than the sum of their lengths. -/
theorem readSections_run : ∀ (sections : List (Entity × Int)) (payload : Payload) (s : Conn), (∀ x ∈ sections, 0 ≤ x.2) →
    ∃ p s', (readSections sections payload).run s = .ok (p, s') ∧
      (s.unread.length : Int) ≤ s'.unread.length + (sections.map Prod.snd).sum
  | [], payload, s, _ => ⟨payload, s, rfl, by simp⟩
  | (entity, dataLength) :: sections, payload, s, h => by
    obtain ⟨p1, s1, hrun1, htakes1⟩ := readSection_run entity dataLength payload s
    obtain ⟨p, s', hrun, htakes⟩ := readSections_run sections p1 s1 fun x hx => h x (List.mem_cons_of_mem _ hx)
    have hnn : 0 ≤ dataLength := h (entity, dataLength) List.mem_cons_self
    refine ⟨p, s', ?_, ?_⟩
    · rw [readSections, List.foldlM_cons, run_bind_of_ok hrun1]
      exact hrun
    · rw [List.map_cons, List.sum_cons]
      omega

/-! ## The offsets -/

theorem neg_le_toInt32 (x : Int) : -2 ^ 31 ≤ toInt32 x := by
  unfold toInt32
  rw [Int.bmod_def]
  split <;> omega

/-- An item sets an `int`, if it sets anything. -/
theorem intOffsets_applyItem {st : Header × Bool} (h : st.1.IntOffsets) (item : Bytes) :
    (EncapsulatedAux.applyItem st item).1.IntOffsets := by
  unfold EncapsulatedAux.applyItem EncapsulatedAux.applyFields
  split
  · split
    · intro e
      rw [Header.setEncapsulated_encapsulated]
      split
      · exact ⟨neg_le_toInt32 _, toInt32_lt _⟩
      · exact h e
    · exact h
  · exact h

/-- Whatever `attach_encapsulated` reads, the offsets are of the type `int`. -/
theorem intOffsets_attachLists : ∀ {texts : List Bytes} {h h' : Header}, h.IntOffsets → h.attachLists texts = .ok h' → h'.IntOffsets
  | [], h, h', hint, hrun => by
    obtain rfl := Except.ok.inj hrun
    exact hint
  | text :: texts, h, h', hint, hrun => by
    have hitems : ∀ (items : List Bytes) (st : Header × Bool), st.1.IntOffsets →
        (items.foldl EncapsulatedAux.applyItem st).1.IntOffsets := by
      intro items
      induction items with
      | nil => exact fun st hst => hst
      | cons item items ih => exact fun st hst => ih _ (intOffsets_applyItem hst item)
    rw [Header.attachLists, List.foldlM_cons, attachEncapsulated_eq] at hrun
    exact intOffsets_attachLists (hitems _ (h, true) hint) hrun

end HostileOffsetsAux

open HostileOffsetsAux

/-- What `read_req_data` does with the offsets of a header. -/
structure HarmlessOffsets (h : RequestHeader) : Prop where
  /-- The sections are read first, then at most one body in chunks. -/
  order : ∀ request : Request, request.header = h → readReqData request = do
    let payload ← readSections (rawSections h.sortEncapsulated) Payload.empty
    let payload ← readBody (chunkedBody h.sortEncapsulated) payload
    return (request.setPayload payload, true)
  /-- Each length is a difference that an `int` can hold, and not negative. -/
  lengths : ∀ x ∈ rawSections h.sortEncapsulated, 0 ≤ x.2 ∧ x.2 ≤ 2 ^ 31 - 1
  /-- The lengths add up to the distance from the least offset that is not negative to the greatest one. -/
  sum : ∀ least greatest, IsLeast {x | 0 ≤ x ∧ ∃ e, h.encapsulated e = x} least → IsGreatest {x | ∃ e, h.encapsulated e = x} greatest →
    ((rawSections h.sortEncapsulated).map Prod.snd).sum = greatest - least
  sum_negative : (∀ e, h.encapsulated e < 0) → ((rawSections h.sortEncapsulated).map Prod.snd).sum = 0
  /-- The sections are read on every stream and take at most 2 ^ 31 - 1 bytes. -/
  takes : ∀ (payload : Payload) (s : Conn), ∃ p s', (readSections (rawSections h.sortEncapsulated) payload).run s = .ok (p, s') ∧
    s.unread.length ≤ s'.unread.length + (2 ^ 31 - 1)

namespace HostileOffsetsAux

/-- The entries of a sorted header, in two parts. -/
theorem sortEncapsulated_parts (h : Header) : ∃ low high, h.sortEncapsulated = low ++ high ∧ (∀ x ∈ low, x.2 < 0) ∧
    (∀ x ∈ high, 0 ≤ x.2) ∧ high.Pairwise (fun a b => a.2 ≤ b.2) := by
  have hsorted : h.sortEncapsulated.Pairwise (fun a b => a.2 ≤ b.2) := StableSort.sortBy_pairwise _
  refine ⟨h.sortEncapsulated.filter (fun x => decide (x.2 < 0)), h.sortEncapsulated.filter (fun x => decide (0 ≤ x.2)),
    StableSort.filter_append_filter 0 hsorted, ?_, ?_, hsorted.filter _⟩
  · intro x hx
    simpa using (List.mem_filter.mp hx).2
  · intro x hx
    simpa using (List.mem_filter.mp hx).2

/-- The lengths add up to the distance between two offsets, if there are any. -/
theorem sum_sections (h : Header) : ((rawSections h.sortEncapsulated).map Prod.snd).sum = 0 ∨
    ∃ e e', 0 ≤ h.encapsulated e ∧ ((rawSections h.sortEncapsulated).map Prod.snd).sum = h.encapsulated e' - h.encapsulated e := by
  obtain ⟨low, high, hparts, hlow, hhigh, -⟩ := sortEncapsulated_parts h
  have hmem : ∀ x ∈ high, h.encapsulated x.1 = x.2 := fun x hx => Header.mem_sortEncapsulated.mp (hparts ▸ List.mem_append_right low hx)
  rw [hparts, rawSections_append hlow]
  rcases high with _ | ⟨first, rest⟩
  · exact .inl rfl
  · refine .inr ⟨first.1, ((first :: rest).getLast (List.cons_ne_nil _ _)).1, ?_, ?_⟩
    · rw [hmem first List.mem_cons_self]
      exact hhigh first List.mem_cons_self
    · rw [hmem first List.mem_cons_self, hmem _ (List.getLast_mem _)]
      exact sum_rawSections rest first hhigh

/-- The lengths add up to the distance of the ends. -/
theorem sum_sorted {h : Header} {least greatest : Int} (hleast : IsLeast {x | 0 ≤ x ∧ ∃ e, h.encapsulated e = x} least)
    (hgreatest : IsGreatest {x | ∃ e, h.encapsulated e = x} greatest) :
    ((rawSections h.sortEncapsulated).map Prod.snd).sum = greatest - least := by
  obtain ⟨low, high, hparts, hlow, hhigh, hpair⟩ := sortEncapsulated_parts h
  have hmem : ∀ {x : Entity × Int}, 0 ≤ x.2 → (x ∈ high ↔ h.encapsulated x.1 = x.2) := by
    intro x hx
    rw [← Header.mem_sortEncapsulated, hparts, List.mem_append]
    exact ⟨.inr, fun hor => hor.resolve_left fun hl => absurd (hlow x hl) (by omega)⟩
  obtain ⟨⟨hnn, e, he⟩, hmin⟩ := hleast
  have hin : (e, least) ∈ high := (hmem hnn).mpr he
  obtain ⟨first, rest, rfl⟩ := List.exists_cons_of_ne_nil (List.ne_nil_of_mem hin)
  have hfirst : first.2 = least := by
    have hfnn := hhigh first List.mem_cons_self
    have hle : least ≤ first.2 := hmin ⟨hfnn, first.1, (hmem hfnn).mp List.mem_cons_self⟩
    rcases List.mem_cons.mp hin with heq | hin
    · rw [← heq]
    · have := (List.pairwise_cons.mp hpair).1 _ hin
      exact le_antisymm this hle
  have hlast : ((first :: rest).getLast (List.cons_ne_nil _ _)).2 = greatest := by
    have hlmem := List.getLast_mem (List.cons_ne_nil first rest)
    have hlnn := hhigh _ hlmem
    have hle : ((first :: rest).getLast (List.cons_ne_nil _ _)).2 ≤ greatest := hgreatest.2 ⟨_, (hmem hlnn).mp hlmem⟩
    obtain ⟨⟨e', he'⟩, hmax⟩ := hgreatest
    have hgin : (e', greatest) ∈ first :: rest := (hmem (by show 0 ≤ greatest; omega)).mpr he'
    exact le_antisymm hle (hpair.rel_getLast hgin)
  rw [hparts, rawSections_append hlow, sum_rawSections rest first hhigh, hfirst, hlast]

end HostileOffsetsAux

/-- Whatever `int` offsets a header starts with, and whatever is attached to it: `read_req_data` computes lengths without an overflow,
reads at most 2 ^ 31 - 1 bytes of sections, and one body at most after them. -/
theorem harmlessOffsets {h : Header} (hint : h.IntOffsets) {texts : List Bytes} {header : RequestHeader}
    (hattach : h.attachLists texts = .ok header.toHeader) : HarmlessOffsets header := by
  have hint' := intOffsets_attachLists hint hattach
  have hsorted : header.sortEncapsulated.Pairwise (fun a b => a.2 ≤ b.2) := StableSort.sortBy_pairwise _
  have hlengths : ∀ x ∈ rawSections header.sortEncapsulated, 0 ≤ x.2 ∧ x.2 ≤ 2 ^ 31 - 1 := by
    intro x hx
    obtain ⟨a, ha, b, hb, hnn, hle, heq⟩ := exists_of_mem_rawSections hsorted hx
    have hlt := (hint' b.1).2
    rw [Header.mem_sortEncapsulated.mp hb] at hlt
    omega
  refine ⟨?_, hlengths, fun least greatest => sum_sorted, ?_, ?_⟩
  · intro request hrequest
    rw [readReqData, readReqDataLoop_eq, hrequest, bind_assoc]
  · intro hneg
    have hlow : ∀ x ∈ header.sortEncapsulated, x.2 < 0 := fun x hx => Header.mem_sortEncapsulated.mp hx ▸ hneg x.1
    have := rawSections_append hlow []
    rw [List.append_nil] at this
    rw [this]
    rfl
  · intro payload s
    obtain ⟨p, s', hrun, htakes⟩ := readSections_run (rawSections header.sortEncapsulated) payload s fun x hx => (hlengths x hx).1
    refine ⟨p, s', hrun, ?_⟩
    have hsum : ((rawSections header.sortEncapsulated).map Prod.snd).sum ≤ 2 ^ 31 - 1 := by
      rcases sum_sections header.toHeader with hzero | ⟨e, e', hnn, heq⟩
      · omega
      · have := (hint' e').2
        omega
    omega

/-- Offsets out of order, as far apart as they can be. -/
def hostileList : Bytes := bytes "req-body=2147483647, res-hdr=-2147483648, req-hdr=0,null-body=5"

theorem harmlessOffsets_hostile : ∃ header : RequestHeader, Header.new.attachLists [hostileList] = .ok header.toHeader ∧
    HarmlessOffsets header := by
  have hattach : Header.new.attachLists [hostileList] =
      .ok ((((Header.new.setEncapsulated .reqBody (2 ^ 31 - 1)).setEncapsulated .resHdr (-2 ^ 31)).setEncapsulated .reqHdr 0).setEncapsulated
        .nullBody 5) := by rfl
  exact ⟨⟨_, ⟨[], [], []⟩, []⟩, hattach, harmlessOffsets (h := Header.new) (fun _ => by simp [Header.new]) hattach⟩

end BitzServer
