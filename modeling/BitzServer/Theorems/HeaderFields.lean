import BitzServer.Icap.WireRequest

/-!
# Header fields

What `read_header` makes of a request line and fields. A line is cut at every colon, and one that is not in two pieces then is ignored:
a field whose value has a colon is lost.
-/

namespace BitzServer

/-- A header line as a client writes it: a key and a value, with spaces and tabs around them. -/
structure FieldLine where
  key : Bytes
  value : Bytes
  beforeKey : Bytes
  afterKey : Bytes
  beforeValue : Bytes
  afterValue : Bytes
  key_ne : key ≠ []
  key_trimmed : Fields.Trimmed isSpace key
  key_chars : ∀ c ∈ key, c < 128 ∧ c ≠ 58 ∧ c ≠ cr ∧ c ≠ lf
  key_plain : key ≠ bytes "Encapsulated"
  value_trimmed : Fields.Trimmed isSpace value
  value_chars : ∀ c ∈ value, c < 128 ∧ c ≠ cr ∧ c ≠ lf
  blanks : ∀ c ∈ beforeKey ++ afterKey ++ (beforeValue ++ afterValue), c = 32 ∨ c = 9

namespace FieldLine

def text (f : FieldLine) : Bytes := f.beforeKey ++ f.key ++ f.afterKey ++ bytes ":" ++ (f.beforeValue ++ f.value ++ f.afterValue)

def pair (f : FieldLine) : Bytes × Bytes := (f.key, f.value)

end FieldLine

/-- The text of a header: the request line and the fields, joined by line ends. -/
def headerText (method uri protocol : Bytes) (fields : List FieldLine) : Bytes :=
  crlf.intercalate ((bytes " ").intercalate [method, uri, protocol] :: fields.map FieldLine.text)

/-- The header parsed from the text has the tokens of the request line, and its map has the fields as its entries. -/
def RecoversFields (method uri protocol : Bytes) (fields : List FieldLine) : Prop :=
  ∃ h, RequestHeader.new (headerText method uri protocol fields) = .ok h ∧ h.request = ⟨method, uri, protocol⟩ ∧
    h.headers.Perm (fields.map FieldLine.pair)

namespace HeaderFieldsAux

open RequestAux WireRequestAux

/-- Joined lines are cut into the lines, with an empty field before each but the first. -/
theorem splitOnP_joined : ∀ {ls : List Bytes} {l : Bytes}, (∀ l' ∈ l :: ls, ∀ c ∈ l', c ≠ cr ∧ c ≠ lf) →
    (crlf.intercalate (l :: ls)).splitOnP (fun c => (bytes "\r\n").contains c) = l :: ls.flatMap (fun l' => [[], l'])
  | [], l, h => by
    have hb : bytes "\r\n" = [cr, lf] := rfl
    rw [List.intercalate_singleton, List.splitOnP_eq_singleton]
    · rfl
    · intro c hc
      rw [hb]
      simp [h l List.mem_cons_self c hc]
  | l' :: ls, l, h => by
    rw [List.intercalate_cons_cons, splitOnP_line (h l List.mem_cons_self),
      splitOnP_joined fun x hx => h x (List.mem_cons_of_mem _ hx)]
    rfl

/-- The empty fields between the lines are ignored. -/
theorem foldlM_joined (ls : List Bytes) (h : Header) :
    (ls.flatMap (fun l => [[], l])).foldlM RequestHeader.readHeaderLine h = ls.foldlM RequestHeader.readHeaderLine h := by
  have hempty : ∀ h : Header, RequestHeader.readHeaderLine h [] = .ok h := fun h => rfl
  induction ls generalizing h with
  | nil => rfl
  | cons l ls ih =>
    obtain ⟨h', hh'⟩ := readHeaderLine_total h l
    rw [List.flatMap_cons, List.cons_append, List.cons_append, List.nil_append, List.foldlM_cons, hempty, ok_bind,
      List.foldlM_cons, List.foldlM_cons, hh', ok_bind, ok_bind]
    exact ih h'

theorem isSpace_of_blank {c : Byte} (h : c = 32 ∨ c = 9) : isSpace c = true := by
  rcases h with rfl | rfl <;> rfl

theorem blank_ne {c : Byte} (h : c = 32 ∨ c = 9) : c ≠ 58 ∧ c ≠ cr ∧ c ≠ lf := by
  rcases h with rfl | rfl <;> decide

/-- The part of a line before its colon has no colon and no line end. -/
theorem left_chars (f : FieldLine) : ∀ c ∈ f.beforeKey ++ f.key ++ f.afterKey, c ≠ 58 ∧ c ≠ cr ∧ c ≠ lf := by
  intro c hc
  rcases List.mem_append.mp hc with hc | hc
  · rcases List.mem_append.mp hc with hc | hc
    · exact blank_ne (f.blanks c (by simp [hc]))
    · exact (f.key_chars c hc).2
  · exact blank_ne (f.blanks c (by simp [hc]))

/-- A colon in the part of a line behind its colon is one of the value. -/
theorem right_chars (f : FieldLine) : ∀ c ∈ f.beforeValue ++ f.value ++ f.afterValue, (c = 58 → 58 ∈ f.value) ∧ c ≠ cr ∧ c ≠ lf := by
  intro c hc
  rcases List.mem_append.mp hc with hc | hc
  · rcases List.mem_append.mp hc with hc | hc
    · obtain ⟨h1, h2⟩ := blank_ne (f.blanks c (by simp [hc]))
      exact ⟨fun h => absurd h h1, h2⟩
    · exact ⟨fun h => h ▸ hc, (f.value_chars c hc).2⟩
  · obtain ⟨h1, h2⟩ := blank_ne (f.blanks c (by simp [hc]))
    exact ⟨fun h => absurd h h1, h2⟩

/-- A field whose value has a colon is cut into three pieces or more. -/
theorem three_le_pieces {f : FieldLine} (h : 58 ∈ f.value) : 3 ≤ (f.text.splitOnP (fun c => (bytes ":").contains c)).length := by
  have hb : bytes ":" = [58] := rfl
  have hleft : ∀ c ∈ f.beforeKey ++ f.key ++ f.afterKey, ([58] : Bytes).contains c = false := by
    intro c hc
    simpa using (left_chars f c hc).1
  have hmem : 58 ∈ f.beforeValue ++ f.value ++ f.afterValue := by simp [h]
  rw [FieldLine.text, hb, List.append_assoc, List.singleton_append, List.splitOnP_append_cons_of_forall_mem hleft 58 rfl,
    List.length_cons]
  exact Nat.succ_le_succ (Fields.two_le_length_splitOnP rfl hmem)

/-- A field goes to the map if its value has no colon, and is ignored if it has one. -/
theorem readHeaderLine_text (f : FieldLine) (h : Header) : RequestHeader.readHeaderLine h f.text =
    .ok (if 58 ∈ f.value then h else { h with headers := KeyMap.set f.key f.value h.headers }) := by
  by_cases hv : 58 ∈ f.value
  · have hlen := three_le_pieces hv
    rw [if_pos hv, RequestHeader.readHeaderLine, split_eq, ok_bind, if_neg (by omega)]
    rfl
  · have hspace : ∀ c ∈ f.beforeKey ++ f.afterKey ++ (f.beforeValue ++ f.afterValue), isSpace c = true :=
      fun c hc => isSpace_of_blank (f.blanks c hc)
    have hkey : trim (f.beforeKey ++ f.key ++ f.afterKey) = f.key :=
      Fields.trim_padded (fun c hc => hspace c (by simp [hc])) (fun c hc => hspace c (by simp [hc])) f.key_trimmed
    have hvalue : trim (f.beforeValue ++ f.value ++ f.afterValue) = f.value :=
      Fields.trim_padded (fun c hc => hspace c (by simp [hc])) (fun c hc => hspace c (by simp [hc])) f.value_trimmed
    rw [if_neg hv, FieldLine.text, readHeaderLine_field (fun c hc => (left_chars f c hc).1)
      (fun c hc heq => hv ((right_chars f c hc).1 heq)), Header.attach_of_ne (by rw [hkey]; exact f.key_plain), hkey, hvalue]

/-- The map after reading fields: the entries before them, and the fields whose values have no colon. -/
theorem foldlM_text (fields : List FieldLine) (hkeys : (fields.map FieldLine.key).Nodup) : ∀ h : Header,
    (∀ f ∈ fields, ∀ x ∈ h.headers, x.1 ≠ f.key) →
    ∃ h', (fields.map FieldLine.text).foldlM RequestHeader.readHeaderLine h = .ok h' ∧
      h'.headers.Perm ((fields.filter (fun f => 58 ∉ f.value)).map FieldLine.pair ++ h.headers) := by
  induction fields with
  | nil => exact fun h _ => ⟨h, rfl, List.Perm.refl _⟩
  | cons f fields ih =>
    intro h hfresh
    rw [List.map_cons, List.nodup_cons] at hkeys
    obtain ⟨hkey, hkeys⟩ := hkeys
    rw [List.map_cons, List.foldlM_cons, readHeaderLine_text, ok_bind]
    by_cases hv : 58 ∈ f.value
    · rw [if_pos hv]
      obtain ⟨h', hrun, hperm⟩ := ih hkeys h fun g hg => hfresh g (List.mem_cons_of_mem _ hg)
      refine ⟨h', hrun, ?_⟩
      rw [List.filter_cons_of_neg (by simpa using hv)]
      exact hperm
    · have hset := KeyMap.set_perm f.value (hfresh f List.mem_cons_self)
      rw [if_neg hv]
      obtain ⟨h', hrun, hperm⟩ := ih hkeys { h with headers := KeyMap.set f.key f.value h.headers } (by
        intro g hg x hx
        rcases List.mem_cons.mp (hset.mem_iff.mp hx) with rfl | hx
        · exact fun heq => hkey (List.mem_map.mpr ⟨g, hg, heq.symm⟩)
        · exact hfresh g (List.mem_cons_of_mem _ hg) x hx)
      refine ⟨h', hrun, ?_⟩
      rw [List.filter_cons_of_pos (by simpa using hv), List.map_cons, List.cons_append]
      exact (hperm.trans (hset.append_left _)).trans List.perm_middle

/-- The lines of a header text have no line ends in them. -/
theorem line_chars {method uri protocol : Bytes} (htokens : ∀ t ∈ [method, uri, protocol], t ≠ [] ∧ ∀ c ∈ t, isSpace c = false)
    (fields : List FieldLine) : ∀ l ∈ (bytes " ").intercalate [method, uri, protocol] :: fields.map FieldLine.text,
      ∀ c ∈ l, c ≠ cr ∧ c ≠ lf := by
  intro l hl c hc
  rcases List.mem_cons.mp hl with rfl | hl
  · have hb : bytes " " = [32] := rfl
    have hc : c = 32 ∨ ∃ t ∈ [method, uri, protocol], c ∈ t := by
      rw [Fields.intercalate_cons_eq, hb] at hc
      simp only [List.mem_append, List.mem_flatMap, List.mem_singleton] at hc
      rcases hc with hc | ⟨t, ht, hc | hc⟩
      · exact .inr ⟨method, List.mem_cons_self, hc⟩
      · exact .inl hc
      · exact .inr ⟨t, List.mem_cons_of_mem _ ht, hc⟩
    rcases hc with rfl | ⟨t, ht, hc⟩
    · decide
    · have hspace := (htokens t ht).2 c hc
      constructor
      · rintro rfl
        exact absurd hspace (by decide)
      · rintro rfl
        exact absurd hspace (by decide)
  · obtain ⟨f, -, rfl⟩ := List.mem_map.mp hl
    have hb : bytes ":" = [58] := rfl
    rw [FieldLine.text, hb, List.mem_append, List.mem_append, List.mem_singleton] at hc
    rcases hc with (hc | rfl) | hc
    · exact (left_chars f c hc).2
    · decide
    · exact (right_chars f c hc).2

end HeaderFieldsAux

open RequestAux WireRequestAux HeaderFieldsAux

/-- The parsed header has the request line, and of the fields those whose values have no colon. -/
theorem new_headerText {method uri protocol : Bytes} (htokens : ∀ t ∈ [method, uri, protocol], t ≠ [] ∧ ∀ c ∈ t, isSpace c = false)
    {fields : List FieldLine} (hkeys : (fields.map FieldLine.key).Nodup) :
    ∃ h, RequestHeader.new (headerText method uri protocol fields) = .ok h ∧ h.request = ⟨method, uri, protocol⟩ ∧
      h.headers.Perm ((fields.filter (fun f => 58 ∉ f.value)).map FieldLine.pair) := by
  obtain ⟨h, hrun, hperm⟩ := foldlM_text fields hkeys Header.new fun _ _ => nofun
  have hnew := new_of_parts (splitOnP_joined (line_chars htokens fields)) (readRequestLine_tokens htokens _)
    ((foldlM_joined _ Header.new).trans hrun)
  have hnone : Header.new.headers = [] := rfl
  rw [hnone, List.append_nil] at hperm
  exact ⟨_, hnew, rfl, hperm⟩

/-- The header parsed from a request line and fields with different keys gives them all back if and only if no value has a colon. -/
theorem recoversFields_iff {method uri protocol : Bytes}
    (htokens : ∀ t ∈ [method, uri, protocol], t ≠ [] ∧ ∀ c ∈ t, isSpace c = false) {fields : List FieldLine}
    (hkeys : (fields.map FieldLine.key).Nodup) :
    RecoversFields method uri protocol fields ↔ ∀ f ∈ fields, 58 ∉ f.value := by
  obtain ⟨h, hnew, hrequest, hperm⟩ := new_headerText htokens hkeys
  constructor
  · rintro ⟨h', hnew', -, hall⟩
    obtain rfl := Except.ok.inj (hnew.symm.trans hnew')
    -- a field that was ignored is missing in the count of the entries
    have hlen := (hperm.symm.trans hall).length_eq
    rw [List.length_map, List.length_map, List.length_filter_eq_length_iff] at hlen
    exact fun f hf => by simpa using hlen f hf
  · intro hcolon
    rw [List.filter_eq_self.mpr fun f hf => by simpa using hcolon f hf] at hperm
    exact ⟨h, hnew, hrequest, hperm⟩

/-- A `Host` field. -/
def hostField (value : Bytes) (htrimmed : Fields.Trimmed isSpace value) (hchars : ∀ c ∈ value, c < 128 ∧ c ≠ cr ∧ c ≠ lf) :
    FieldLine where
  key := bytes "Host"
  value := value
  beforeKey := []
  afterKey := []
  beforeValue := bytes " "
  afterValue := []
  key_ne := by decide
  key_trimmed := Fields.trimmed_of_forall (by decide)
  key_chars := by decide
  key_plain := by decide
  value_trimmed := htrimmed
  value_chars := hchars
  blanks := by decide

/-- A host without a port is recovered. -/
theorem recoversFields_host : RecoversFields (bytes "OPTIONS") (bytes "icap://a/") (bytes "ICAP/1.0")
    [hostField (bytes "a") (Fields.trimmed_of_forall (by decide)) (by decide)] :=
  (recoversFields_iff (by decide) (by decide)).mpr (by decide)

/-- A host with a port is dropped. -/
theorem recoversFields_false : ¬∀ (method uri protocol : Bytes) (fields : List FieldLine),
    (∀ t ∈ [method, uri, protocol], t ≠ [] ∧ ∀ c ∈ t, isSpace c = false) → (fields.map FieldLine.key).Nodup →
      RecoversFields method uri protocol fields := by
  intro h
  have htokens : ∀ t ∈ [bytes "OPTIONS", bytes "icap://a/", bytes "ICAP/1.0"], t ≠ [] ∧ ∀ c ∈ t, isSpace c = false := by decide
  have hkeys : (([hostField (bytes "a:80") (Fields.trimmed_of_forall (by decide)) (by decide)] : List FieldLine).map
      FieldLine.key).Nodup := List.nodup_singleton _
  obtain ⟨h', hnew, -, hall⟩ := h _ _ _ _ htokens hkeys
  obtain ⟨h'', hnew', -, hperm⟩ := new_headerText htokens hkeys
  obtain rfl := Except.ok.inj (hnew.symm.trans hnew')
  exact absurd (hperm.symm.trans hall).length_eq (by decide)

end BitzServer
