import BitzServer.Icap.Text
import BitzServer.Lib.KeyMap
import BitzServer.Lib.StableSort

/-!
# Headers

`icap::Header`: the plain headers, a map of strings, and the offsets of the encapsulated entities, a map with exactly six
names. `Encapsulated` lists are read into the second map (`attach_encapsulated`), printed from it (`encapsulated_header_str`) and
computed for a payload (`update_encapsulated`).
-/

namespace BitzServer

/-- `payload_t` -/
structure Payload where
  reqHeader : Bytes
  reqBody : Bytes
  resHeader : Bytes
  resBody : Bytes
  ieof : Bool
  deriving DecidableEq

/-- The payload a request and a response start with. -/
def Payload.empty : Payload := { reqHeader := [], reqBody := [], resHeader := [], resBody := [], ieof := false }

/-- The names of `_encapsulated`, in the order of the map. -/
inductive Entity where
  | nullBody
  | optBody
  | reqBody
  | reqHdr
  | resBody
  | resHdr
  deriving DecidableEq, Repr

namespace Entity

/-- All names, in the order of the map. -/
def all : List Entity := [nullBody, optBody, reqBody, reqHdr, resBody, resHdr]

def name : Entity → Bytes
  | nullBody => bytes "null-body"
  | optBody => bytes "opt-body"
  | reqBody => bytes "req-body"
  | reqHdr => bytes "req-hdr"
  | resBody => bytes "res-body"
  | resHdr => bytes "res-hdr"

/-- `_encapsulated.find( name )` -/
def find? (name : Bytes) : Option Entity := all.find? (fun e => e.name == name)

theorem mem_all (e : Entity) : e ∈ all := by
  cases e <;> decide

/-- Every name is found. -/
theorem find?_name (e : Entity) : find? e.name = some e := by
  cases e <;> decide

end Entity

/-- `icap::Header`: `_headers` and `_encapsulated`. -/
structure Header where
  headers : List (Bytes × Bytes)
  encapsulated : Entity → Int

namespace Header

/-- The values of the map are of the type `int`. -/
def IntOffsets (h : Header) : Prop := ∀ e, -2 ^ 31 ≤ h.encapsulated e ∧ h.encapsulated e < 2 ^ 31

/-- `Header::Header` -/
def new : Header := { headers := [], encapsulated := fun _ => -1 }

/-- `value`: the empty string for a key that is not there -/
def value (h : Header) (key : Bytes) : Bytes := (h.headers.lookup key).getD []

/-- `_encapsulated[e] = offset` -/
def setEncapsulated (h : Header) (e : Entity) (offset : Int) : Header :=
  { h with encapsulated := Function.update h.encapsulated e offset }

/-- One pass of the loop of `attach_encapsulated` over the items of the list: the header and `r_status`. -/
def attachItem (st : Header × Bool) (item : Bytes) : Except Fault (Header × Bool) := do
  let (h, rStatus) := st
  let entityData ← split (trim item) (bytes "=")
  if entityData.length = 2 then
    let name ← vecAt entityData 0
    match Entity.find? (trim name) with
    | some e => do
      let offset ← vecAt entityData 1
      return (h.setEncapsulated e (atoi (trim offset)), rStatus)
    | none => return (h, rStatus)
  else return (h, false)

/-- `attach_encapsulated` -/
def attachEncapsulated (h : Header) (headerValue : Bytes) : Except Fault (Header × Bool) := do
  let listData ← split (trim headerValue) (bytes ",")
  listData.foldlM attachItem (h, true)

def attach (h : Header) (key value : Bytes) : Except Fault Header := do
  let key := trim key
  let value := trim value
  if key = bytes "Encapsulated" then
    let (h, _) ← h.attachEncapsulated value
    return h
  else return { h with headers := KeyMap.set key value h.headers }

/-- `remove`: the header, and whether the key was there -/
def remove (h : Header) (key : Bytes) : Header × Bool :=
  ({ h with headers := KeyMap.erase (trim key) h.headers }, (h.headers.lookup (trim key)).isSome)

/-- `encapsulated_header` -/
def encapsulatedHeader (h : Header) (entity : Bytes) : Int :=
  match Entity.find? entity with
  | some e => h.encapsulated e
  | none => -1

/-- `sort_encapsulated_header`: `std::sort` on six elements is a stable insertion sort -/
def sortEncapsulated (h : Header) : List (Entity × Int) :=
  StableSort.sortBy Prod.snd (Entity.all.map (fun e => (e, h.encapsulated e)))

/-- One pass of the loop of `encapsulated_header_str`. -/
def appendEntity (encapsHeader : Bytes) (idx : Entity × Int) : Bytes :=
  if idx.2 ≥ 0 then
    (if encapsHeader ≠ [] then encapsHeader ++ bytes ", " else encapsHeader) ++ idx.1.name ++ bytes "=" ++ itoa idx.2
  else encapsHeader

/-- `encapsulated_header_str` -/
def encapsulatedStr (h : Header) : Bytes :=
  let encapsHeader := h.sortEncapsulated.foldl appendEntity []
  if encapsHeader = [] then bytes "null-body=0" else encapsHeader

/-- One of the four alike parts of `update_encapsulated`, with `data_length` and `data_offset`, both `unsigned int`. -/
def updateSection (e : Entity) (content : Bytes) (st : Header × Nat × Nat) : Header × Nat × Nat :=
  let (h, dataLength, _) := st
  if content.length > 0 then (h.setEncapsulated e (toInt32 dataLength), toUInt32 (dataLength + content.length), dataLength) else st

/-- `update_encapsulated` -/
def updateEncapsulated (h : Header) (payload : Payload) : Header :=
  let st := (h, 0, 0)
  let st := updateSection .reqHdr payload.reqHeader st
  let st := updateSection .reqBody payload.reqBody st
  let st := updateSection .resHdr payload.resHeader st
  let (h, dataLength, dataOffset) := updateSection .resBody payload.resBody st
  if dataOffset = 0 then h.setEncapsulated .nullBody (toInt32 dataLength) else h

/-- A plain header goes to the map of headers. -/
theorem attach_of_ne {key : Bytes} (hkey : trim key ≠ bytes "Encapsulated") (h : Header) (value : Bytes) :
    h.attach key value = .ok { h with headers := KeyMap.set (trim key) (trim value) h.headers } := by
  rw [attach]
  exact if_neg hkey

/-- The sorted entries are those of the map. -/
theorem mem_sortEncapsulated {h : Header} {x : Entity × Int} : x ∈ h.sortEncapsulated ↔ h.encapsulated x.1 = x.2 := by
  unfold sortEncapsulated
  rw [StableSort.mem_sortBy, List.mem_map]
  constructor
  · rintro ⟨e, -, rfl⟩
    rfl
  · intro heq
    exact ⟨x.1, Entity.mem_all x.1, by rw [heq]⟩

/-! ## What a payload sets -/

@[simp]
theorem setEncapsulated_encapsulated (h : Header) (e e' : Entity) (x : Int) :
    (h.setEncapsulated e x).encapsulated e' = if e' = e then x else h.encapsulated e' := by
  simp [setEncapsulated, Function.update_apply]

/-- An empty section changes nothing. -/
@[simp]
theorem updateSection_nil (e : Entity) (st : Header × Nat × Nat) : updateSection e [] st = st := rfl

/-- A section that is not empty starts at the length of what is before it, as long as that is an `int`. -/
theorem updateSection_of_ne {content : Bytes} (hne : content ≠ []) (e : Entity) (h : Header) {dataLength : Nat}
    (hlt : dataLength < 2 ^ 31) (dataOffset : Nat) : updateSection e content (h, dataLength, dataOffset) =
      (h.setEncapsulated e dataLength, toUInt32 (dataLength + content.length), dataLength) := by
  simp only [updateSection, gt_iff_lt, List.length_pos_iff.mpr hne, if_true, toInt32_of_lt hlt]

/-- A section sets its own offset, to the length of what is before it, if it is not empty. -/
theorem updateSection_encapsulated (st : Header × Nat × Nat) (e : Entity) (content : Bytes) (e' : Entity) :
    (updateSection e content st).1.encapsulated e' = if content ≠ [] ∧ e' = e then toInt32 st.2.1 else st.1.encapsulated e' := by
  by_cases hne : content = []
  · subst hne
    rw [updateSection_nil, if_neg (by simp)]
  · have hpos := List.length_pos_iff.mpr hne
    simp only [updateSection, gt_iff_lt, hpos, if_true, setEncapsulated_encapsulated, hne, ne_eq, not_false_eq_true, true_and]

/-- The length of the sections so far, modulo 2 ^ 32. -/
theorem updateSection_dataLength {st : Header × Nat × Nat} (hlt : st.2.1 < 2 ^ 32) (e : Entity) (content : Bytes) :
    (updateSection e content st).2.1 = toUInt32 (st.2.1 + content.length) := by
  by_cases hne : content = []
  · subst hne
    exact (toUInt32_of_lt hlt).symm
  · have hpos := List.length_pos_iff.mpr hne
    simp only [updateSection, gt_iff_lt, hpos, if_true]

/-- The start of the last section that is not empty. -/
theorem updateSection_dataOffset (st : Header × Nat × Nat) (e : Entity) (content : Bytes) :
    (updateSection e content st).2.2 = if content = [] then st.2.2 else st.2.1 := by
  by_cases hne : content = []
  · subst hne
    rfl
  · have hpos := List.length_pos_iff.mpr hne
    simp only [updateSection, gt_iff_lt, hpos, if_true, hne, if_false]

/-- A payload changes none of the plain headers. -/
theorem updateEncapsulated_headers (h : Header) (payload : Payload) : (h.updateEncapsulated payload).headers = h.headers := by
  have hsection : ∀ (e : Entity) (content : Bytes) (st : Header × Nat × Nat), (updateSection e content st).1.headers = st.1.headers := by
    intro e content st
    unfold updateSection
    dsimp only
    split <;> rfl
  unfold updateEncapsulated
  dsimp only
  split <;> simp only [setEncapsulated, hsection]

end Header

end BitzServer
