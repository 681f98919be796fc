import BitzServer.Icap.Request

/-!
# Headers as dictionaries

What a header holds after any calls: a dictionary, with its entries in the order of the keys. The header of a request is the dictionary
of its lines, in which the last line of a key counts.
-/

namespace BitzServer

/-- A call that changes a header. -/
inductive HeaderCall where
  | attach (key value : Bytes)
  | attachEncapsulated (headerValue : Bytes)
  | remove (key : Bytes)
  | updateEncapsulated (payload : Payload)

namespace HeaderCall

/-- The header after a call. -/
def apply (h : Header) : HeaderCall → Except Fault Header
  | attach key value => h.attach key value
  | attachEncapsulated headerValue => do
    let (h, _) ← h.attachEncapsulated headerValue
    return h
  | remove key => return (h.remove key).1
  | updateEncapsulated payload => return h.updateEncapsulated payload

/-- What a call is to do to the plain headers. -/
def define (d : Bytes → Option Bytes) : HeaderCall → Bytes → Option Bytes
  | attach key value => if trim key = bytes "Encapsulated" then d else Function.update d (trim key) (some (trim value))
  | remove key => Function.update d (trim key) none
  | attachEncapsulated _ => d
  | updateEncapsulated _ => d

end HeaderCall

/-- The plain headers are those of a dictionary; they are trimmed, and `Encapsulated` is none of them. -/
structure Header.Holds (h : Header) (d : Bytes → Option Bytes) : Prop where
  sorted : KeyMap.Sorted h.headers
  lookup : ∀ key, h.headers.lookup key = d key
  trimmed : ∀ x ∈ h.headers, trim x.1 = x.1 ∧ trim x.2 = x.2
  plain : ∀ x ∈ h.headers, x.1 ≠ bytes "Encapsulated"

namespace HeaderMapAux

open EncapsulatedAux RequestAux

theorem trim_trim (text : Bytes) : trim (trim text) = trim text := Fields.trim_eq_self (Fields.trimmed_trim text)

theorem attachEncapsulated_headers (h : Header) (v : Bytes) : ∃ h' r, h.attachEncapsulated v = .ok (h', r) ∧ h'.headers = h.headers := by
  have hitem : ∀ (st : Header × Bool) (item : Bytes), (applyItem st item).1.headers = st.1.headers := by
    intro st item
    unfold applyItem applyFields
    split
    · split <;> rfl
    · rfl
  have hfold : ∀ (items : List Bytes) (st : Header × Bool), (items.foldl applyItem st).1.headers = st.1.headers := by
    intro items
    induction items with
    | nil => exact fun st => rfl
    | cons item items ih =>
      intro st
      rw [List.foldl_cons, ih, hitem]
  exact ⟨_, _, attachEncapsulated_eq h v, hfold _ _⟩

variable {h : Header} {d : Bytes → Option Bytes}

theorem holds_of_headers (hh : h.Holds d) {h' : Header} (heq : h'.headers = h.headers) : h'.Holds d where
  sorted := heq ▸ hh.sorted
  lookup key := heq ▸ hh.lookup key
  trimmed := heq ▸ hh.trimmed
  plain := heq ▸ hh.plain

theorem holds_set (hh : h.Holds d) {key : Bytes} (value : Bytes) (hkey : trim key ≠ bytes "Encapsulated") :
    ({ h with headers := KeyMap.set (trim key) (trim value) h.headers } : Header).Holds
      (Function.update d (trim key) (some (trim value))) where
  sorted := hh.sorted.set _ _
  lookup k := by
    by_cases hk : k = trim key
    · subst hk
      rw [Function.update_self]
      exact KeyMap.lookup_set_self _ _ _
    · rw [Function.update_of_ne hk, ← hh.lookup k]
      exact KeyMap.lookup_set_of_ne _ hk _
  trimmed x hx := by
    rcases KeyMap.mem_set hx with rfl | hx
    · exact ⟨trim_trim key, trim_trim value⟩
    · exact hh.trimmed x hx
  plain x hx := by
    rcases KeyMap.mem_set hx with rfl | hx
    · exact hkey
    · exact hh.plain x hx

theorem holds_remove (hh : h.Holds d) (key : Bytes) : (h.remove key).1.Holds (Function.update d (trim key) none) where
  sorted := hh.sorted.erase _
  lookup k := by
    by_cases hk : k = trim key
    · subst hk
      rw [Function.update_self]
      exact KeyMap.lookup_erase_self _ _
    · rw [Function.update_of_ne hk, ← hh.lookup k]
      exact KeyMap.lookup_erase_of_ne hk _
  trimmed x hx := hh.trimmed x (List.mem_of_mem_filter hx)
  plain x hx := hh.plain x (List.mem_of_mem_filter hx)

/-- A call does to the headers what it is to do to the dictionary. -/
theorem holds_apply (hh : h.Holds d) (call : HeaderCall) : ∃ h', call.apply h = .ok h' ∧ h'.Holds (call.define d) := by
  cases call with
  | attach key value =>
    by_cases hkey : trim key = bytes "Encapsulated"
    · obtain ⟨h', r, hrun, heq⟩ := attachEncapsulated_headers h (trim value)
      refine ⟨h', ?_, ?_⟩
      · rw [HeaderCall.apply, Header.attach]
        dsimp only
        rw [if_pos hkey, hrun]
        rfl
      · rw [HeaderCall.define, if_pos hkey]
        exact holds_of_headers hh heq
    · refine ⟨_, Header.attach_of_ne hkey h value, ?_⟩
      rw [HeaderCall.define, if_neg hkey]
      exact holds_set hh value hkey
  | attachEncapsulated headerValue =>
    obtain ⟨h', r, hrun, heq⟩ := attachEncapsulated_headers h headerValue
    refine ⟨h', ?_, holds_of_headers hh heq⟩
    rw [HeaderCall.apply, hrun]
    rfl
  | remove key => exact ⟨_, rfl, holds_remove hh key⟩
  | updateEncapsulated payload => exact ⟨_, rfl, holds_of_headers hh (Header.updateEncapsulated_headers h payload)⟩

theorem holds_calls (calls : List HeaderCall) : ∀ {h : Header} {d : Bytes → Option Bytes}, h.Holds d →
    ∃ h', calls.foldlM HeaderCall.apply h = .ok h' ∧ h'.Holds (calls.foldl HeaderCall.define d) := by
  induction calls with
  | nil => exact fun hh => ⟨_, rfl, hh⟩
  | cons call calls ih =>
    intro h d hh
    obtain ⟨h₁, hrun, hh₁⟩ := holds_apply hh call
    obtain ⟨h', hrest, hh'⟩ := ih hh₁
    refine ⟨h', ?_, hh'⟩
    rw [List.foldlM_cons, hrun, ok_bind]
    exact hrest

theorem holds_new : Header.new.Holds fun _ => none where
  sorted := List.Pairwise.nil
  lookup _ := rfl
  trimmed := nofun
  plain := nofun

end HeaderMapAux

open HeaderMapAux RequestAux EncapsulatedAux

/-- After any calls a header holds the dictionary that they make, with its keys in order; which calls made it does not show in it. -/
theorem headerCalls_dictionary (calls : List HeaderCall) :
    ∃ h, calls.foldlM HeaderCall.apply Header.new = .ok h ∧ h.Holds (calls.foldl HeaderCall.define fun _ => none) ∧
      (∀ key, h.value key = ((calls.foldl HeaderCall.define fun _ => none) key).getD []) ∧
      ∀ (calls' : List HeaderCall) (h' : Header), calls'.foldlM HeaderCall.apply Header.new = .ok h' →
        (calls'.foldl HeaderCall.define fun _ => none) = calls.foldl HeaderCall.define (fun _ => none) → h'.headers = h.headers := by
  obtain ⟨h, hrun, hh⟩ := holds_calls calls holds_new
  refine ⟨h, hrun, hh, fun key => by rw [Header.value, hh.lookup], fun calls' h' hrun' heq => ?_⟩
  obtain ⟨h₂, hrun₂, hh₂⟩ := holds_calls calls' holds_new
  obtain rfl := Except.ok.inj (hrun'.symm.trans hrun₂)
  exact KeyMap.Sorted.ext hh₂.sorted hh.sorted fun key => (hh₂.lookup key).trans ((congrFun heq key).trans (hh.lookup key).symm)

/-! ## The fields of a text -/

/-- The two parts of a text with one delimiter character, trimmed. -/
def pairOf (delimiter text : Bytes) : Option (Bytes × Bytes) :=
  match (text.splitOnP (fun c => delimiter.contains c)).map trim with
  | [key, value] => some (key, value)
  | _ => none

/-- The fields of header lines: a line without a colon, or with two, has none. -/
def fieldsOf (lines : List Bytes) : List (Bytes × Bytes) := lines.filterMap (pairOf (bytes ":"))

/-- The items of all `Encapsulated` lists in header lines. -/
def itemsOf (lines : List Bytes) : List (Bytes × Bytes) :=
  ((fieldsOf lines).filter (fun f => f.1 = bytes "Encapsulated")).flatMap fun f =>
    (f.2.splitOnP (fun c => (bytes ",").contains c)).filterMap (pairOf (bytes "="))

/-- The lines of a header text behind the request line. -/
def headerLines (rawData : Bytes) : List Bytes := (rawData.splitOnP (fun c => (bytes "\r\n").contains c)).tail

/-- What is read from the header lines: the last field of a key counts, and the last item of an entity. -/
structure Header.ReadFrom (h : Header) (lines : List Bytes) : Prop where
  holds : h.Holds fun key => if key = bytes "Encapsulated" then none else (fieldsOf lines).reverse.lookup key
  offsets : ∀ entity, h.encapsulatedHeader entity =
    if (Entity.find? entity).isSome then ((itemsOf lines).reverse.lookup entity).elim (-1) atoi else -1

namespace HeaderMapAux

theorem pairOf_trimmed {delimiter text : Bytes} {f : Bytes × Bytes} (h : pairOf delimiter text = some f) :
    trim f.1 = f.1 ∧ trim f.2 = f.2 := by
  unfold pairOf at h
  split at h
  case h_1 key value hparts =>
    obtain rfl := Option.some.inj h
    have hmem : ∀ x ∈ [key, value], trim x = x := by
      intro x hx
      rw [← hparts] at hx
      obtain ⟨y, -, rfl⟩ := List.mem_map.mp hx
      exact trim_trim y
    exact ⟨hmem key (by simp), hmem value (by simp)⟩
  case h_2 => nomatch h

/-- The header lines are calls of `attach` with their fields. -/
theorem readHeaderLine_eq (h : Header) (line : Bytes) :
    RequestHeader.readHeaderLine h line = (pairOf (bytes ":") line).elim (.ok h) fun f => (HeaderCall.attach f.1 f.2).apply h := by
  have hattach : ∀ key value, h.attach (trim key) (trim value) = h.attach key value := by
    intro key value
    rw [Header.attach, Header.attach, trim_trim, trim_trim]
  rw [RequestHeader.readHeaderLine, split_eq, pairOf]
  rcases line.splitOnP (fun c => (bytes ":").contains c) with _ | ⟨key, _ | ⟨value, _ | ⟨c, l⟩⟩⟩
  · rfl
  · rfl
  · exact (hattach key value).symm
  · rfl

theorem foldlM_readHeaderLine (lines : List Bytes) (h : Header) : lines.foldlM RequestHeader.readHeaderLine h =
    ((fieldsOf lines).map fun f => HeaderCall.attach f.1 f.2).foldlM HeaderCall.apply h := by
  induction lines generalizing h with
  | nil => rfl
  | cons line lines ih =>
    rw [List.foldlM_cons, readHeaderLine_eq, fieldsOf, List.filterMap_cons]
    cases pairOf (bytes ":") line with
    | none => exact ih h
    | some f =>
      dsimp only [Option.elim]
      rw [List.map_cons, List.foldlM_cons]
      exact bind_congr fun h' => ih h'

/-- The dictionary of attached fields: the last value of a key. -/
theorem define_fields (key : Bytes) : ∀ (fields : List (Bytes × Bytes)) (d : Bytes → Option Bytes),
    (∀ f ∈ fields, trim f.1 = f.1 ∧ trim f.2 = f.2) →
    (fields.map fun f => HeaderCall.attach f.1 f.2).foldl HeaderCall.define d key =
      if key = bytes "Encapsulated" then d key else (fields.reverse.lookup key).or (d key)
  | [], d, _ => by
    rw [List.map_nil, List.foldl_nil]
    split <;> rfl
  | (k, v) :: fields, d, htrim => by
    obtain ⟨hk, hv⟩ := htrim (k, v) List.mem_cons_self
    rw [List.map_cons, List.foldl_cons, define_fields key fields _ fun f hf => htrim f (List.mem_cons_of_mem _ hf), HeaderCall.define,
      hk, hv, List.reverse_cons, List.lookup_append, Option.or_assoc]
    by_cases hkey : key = bytes "Encapsulated"
    · rw [if_pos hkey, if_pos hkey]
      split
      · rfl
      case isFalse hne => exact Function.update_of_ne (fun h => hne (h.symm.trans hkey)) _ _
    · rw [if_neg hkey, if_neg hkey]
      refine congrArg _ ?_
      by_cases hkk : key = k
      · subst hkk
        rw [if_neg hkey, Function.update_self, List.lookup_cons_self]
        rfl
      · have hne : (key == k) = false := by simpa using hkk
        rw [List.lookup_cons, hne]
        split
        · rfl
        · exact Function.update_of_ne hkk _ _

/-- What an item does to the offsets. -/
def setOffset (offsets : Entity → Int) (item : Bytes × Bytes) : Entity → Int :=
  match Entity.find? item.1 with
  | some e => Function.update offsets e (atoi item.2)
  | none => offsets

theorem foldl_applyItem_encapsulated (items : List Bytes) (st : Header × Bool) : (items.foldl applyItem st).1.encapsulated =
    (items.filterMap (pairOf (bytes "="))).foldl setOffset st.1.encapsulated := by
  induction items generalizing st with
  | nil => rfl
  | cons item items ih =>
    rw [List.foldl_cons, ih, List.filterMap_cons, applyItem, pairOf]
    rcases (item.splitOnP (fun c => (bytes "=").contains c)).map trim with _ | ⟨name, _ | ⟨offset, _ | ⟨c, l⟩⟩⟩
    · rfl
    · rfl
    · dsimp only
      rw [applyFields, List.foldl_cons, setOffset]
      dsimp only
      cases Entity.find? name <;> rfl
    · rfl

/-- The offsets after the fields have been attached. -/
theorem attach_offsets (fields : List (Bytes × Bytes)) (htrim : ∀ f ∈ fields, trim f.1 = f.1 ∧ trim f.2 = f.2) : ∀ {h h' : Header},
    (fields.map fun f => HeaderCall.attach f.1 f.2).foldlM HeaderCall.apply h = .ok h' →
    h'.encapsulated = ((fields.filter (fun f => f.1 = bytes "Encapsulated")).flatMap fun f =>
      (f.2.splitOnP (fun c => (bytes ",").contains c)).filterMap (pairOf (bytes "="))).foldl setOffset h.encapsulated := by
  induction fields with
  | nil =>
    rintro h _ ⟨⟩
    rfl
  | cons f fields ih =>
    intro h h' hrun
    obtain ⟨hk, hv⟩ := htrim f List.mem_cons_self
    have ih := @ih fun g hg => htrim g (List.mem_cons_of_mem _ hg)
    rw [List.map_cons, List.foldlM_cons, HeaderCall.apply] at hrun
    by_cases hkey : f.1 = bytes "Encapsulated"
    · rw [Header.attach, hk, hv] at hrun
      dsimp only at hrun
      rw [if_pos hkey, attachEncapsulated_eq, ok_bind] at hrun
      rw [ih hrun, foldl_applyItem_encapsulated, List.filter_cons_of_pos (by simpa using hkey), List.flatMap_cons, List.foldl_append]
    · rw [Header.attach_of_ne (hk.symm ▸ hkey), ok_bind] at hrun
      rw [ih hrun, List.filter_cons_of_neg (by simpa using hkey)]

theorem name_of_find? {name : Bytes} {e : Entity} (h : Entity.find? name = some e) : e.name = name := by
  simpa using List.find?_some h

/-- The offset of an entity is the last one that has been set. -/
theorem foldl_setOffset (e : Entity) : ∀ (items : List (Bytes × Bytes)) (offsets : Entity → Int),
    items.foldl setOffset offsets e = (items.reverse.lookup e.name).elim (offsets e) atoi
  | [], _ => rfl
  | (name, offset) :: items, offsets => by
    rw [List.foldl_cons, foldl_setOffset e items, List.reverse_cons, List.lookup_append]
    cases items.reverse.lookup e.name with
    | some x => rfl
    | none =>
      rw [Option.none_or, Option.elim_none, setOffset]
      by_cases hname : e.name = name
      · subst hname
        rw [List.lookup_cons_self]
        dsimp only
        rw [Entity.find?_name]
        exact Function.update_self _ _ _
      · have hne : (e.name == name) = false := by simpa using hname
        rw [List.lookup_cons, hne]
        cases hfind : Entity.find? name with
        | none => rfl
        | some e' =>
          refine Function.update_of_ne (fun h => hname ?_) _ _
          rw [h]
          exact name_of_find? hfind

end HeaderMapAux

/-- The header of any text has the last value of each key and the last offset of each entity, and nothing else. -/
theorem new_readFrom (rawData : Bytes) : ∃ h, RequestHeader.new rawData = .ok h ∧ h.toHeader.ReadFrom (headerLines rawData) := by
  rcases hcut : rawData.splitOnP (fun c => (bytes "\r\n").contains c) with _ | ⟨requestData, lines⟩
  · exact absurd hcut (List.splitOnP_ne_nil _ _)
  have hlines : headerLines rawData = lines := by rw [headerLines, hcut, List.tail_cons]
  have htrim : ∀ f ∈ fieldsOf lines, trim f.1 = f.1 ∧ trim f.2 = f.2 := by
    intro f hf
    obtain ⟨line, -, hline⟩ := List.mem_filterMap.mp hf
    exact pairOf_trimmed hline
  obtain ⟨r, hr⟩ := readRequestLine_total { method := [], uri := [], protocol := bytes "ICAP/1.0" } requestData
  obtain ⟨h, hrun, hh⟩ := holds_calls ((fieldsOf lines).map fun f => HeaderCall.attach f.1 f.2) holds_new
  refine ⟨_, new_of_parts hcut hr ((foldlM_readHeaderLine lines Header.new).trans hrun), ?_⟩
  rw [hlines]
  refine ⟨?_, fun entity => ?_⟩
  · have hdict : ((fieldsOf lines).map fun f => HeaderCall.attach f.1 f.2).foldl HeaderCall.define (fun _ => none) =
        fun key => if key = bytes "Encapsulated" then none else (fieldsOf lines).reverse.lookup key := by
      funext key
      rw [define_fields key _ _ htrim, Option.or_none]
    exact hdict ▸ hh
  · cases hfind : Entity.find? entity with
    | none => rw [Header.encapsulatedHeader, hfind]; rfl
    | some e =>
      obtain rfl := name_of_find? hfind
      rw [Header.encapsulatedHeader, hfind, Option.isSome_some, if_pos rfl]
      exact (congrFun (attach_offsets (fieldsOf lines) htrim hrun) e).trans (foldl_setOffset e _ _)

end BitzServer
