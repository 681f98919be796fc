import BitzServer.Icap.Header

/-!
# Encapsulated lists

How an `Encapsulated` list may be written, and what a header that has read one, or has been set up otherwise, lists: its
entities with an offset that is not negative. A list with increasing offsets is the end of the sorted header.
-/

namespace BitzServer

/-! ## Written lists -/

/-- An item of an `Encapsulated` list as it is written: blanks may stand around the name and the number. -/
structure Item where
  entity : Entity
  digits : Bytes
  lead : Bytes
  beforeEq : Bytes
  afterEq : Bytes
  trail : Bytes
  digits_ne : digits ≠ []
  digits_dec : ∀ c ∈ digits, isDigit c = true
  blanks : ∀ c ∈ lead ++ beforeEq ++ afterEq ++ trail, isSpace c = true

namespace Item

def offset (i : Item) : Nat := decValue i.digits

/-- The entry an item stands for. -/
def entry (i : Item) : Entity × Int := (i.entity, (i.offset : Int))

def text (i : Item) : Bytes := i.lead ++ i.entity.name ++ i.beforeEq ++ bytes "=" ++ (i.afterEq ++ i.digits ++ i.trail)

end Item

/-- The items of a list, with commas between them. -/
def listText (items : List Item) : Bytes := (bytes ",").intercalate (items.map Item.text)

/-- The header after the entries have been set, one after the other. -/
def Header.setEntries (h : Header) (l : List (Entity × Int)) : Header := l.foldl (fun h x => h.setEncapsulated x.1 x.2) h

namespace EncapsulatedAux

/-- A name has no blank and none of the separators of a list. -/
theorem name_chars (e : Entity) : ∀ c ∈ e.name, isSpace c = false ∧ c ≠ 44 ∧ c ≠ 61 ∧ c ≠ 58 := by
  cases e <;> decide

theorem digit_chars (c : Byte) : isDigit c = true → isSpace c = false ∧ c ≠ 44 ∧ c ≠ 61 ∧ c ≠ 58 := by
  revert c
  exact forall_byte (by decide +kernel)

theorem blank_chars (c : Byte) : isSpace c = true → c ≠ 44 ∧ c ≠ 61 ∧ c ≠ 58 := by
  revert c
  exact forall_byte (by decide +kernel)

theorem contains_comma (c : Byte) : (bytes ",").contains c = decide (c = 44) := by
  have hb : bytes "," = [44] := rfl
  simp [hb]

theorem contains_eq (c : Byte) : (bytes "=").contains c = decide (c = 61) := by
  have hb : bytes "=" = [61] := rfl
  simp [hb]

/-- The part of an item before the `=` and the part after it. -/
theorem splitOnP_text (i : Item) : i.text.splitOnP (fun c => (bytes "=").contains c) =
    [i.lead ++ i.entity.name ++ i.beforeEq, i.afterEq ++ i.digits ++ i.trail] := by
  have hleft : ∀ c ∈ i.lead ++ i.entity.name ++ i.beforeEq, (bytes "=").contains c = false := by
    intro c hc
    rw [contains_eq, decide_eq_false_iff_not]
    rw [List.mem_append, List.mem_append] at hc
    rcases hc with (hc | hc) | hc
    · exact (blank_chars c (i.blanks c (by simp [hc]))).2.1
    · exact (name_chars i.entity c hc).2.2.1
    · exact (blank_chars c (i.blanks c (by simp [hc]))).2.1
  have hright : ∀ c ∈ i.afterEq ++ i.digits ++ i.trail, (bytes "=").contains c = false := by
    intro c hc
    rw [contains_eq, decide_eq_false_iff_not]
    rw [List.mem_append, List.mem_append] at hc
    rcases hc with (hc | hc) | hc
    · exact (blank_chars c (i.blanks c (by simp [hc]))).2.1
    · exact (digit_chars c (i.digits_dec c hc)).2.2.1
    · exact (blank_chars c (i.blanks c (by simp [hc]))).2.1
  have heq : bytes "=" = [61] := rfl
  unfold Item.text
  conv_lhs => rw [heq, List.append_assoc, List.singleton_append]
  rw [← heq, List.splitOnP_append_cons_of_forall_mem hleft 61 (by decide), List.splitOnP_eq_singleton hright]

/-- An item has no comma. -/
theorem comma_not_mem_text (i : Item) : ∀ c ∈ i.text, (bytes ",").contains c = false := by
  intro c hc
  rw [contains_comma, decide_eq_false_iff_not]
  have heq : bytes "=" = [61] := rfl
  simp only [Item.text, heq, List.mem_append, List.mem_singleton] at hc
  rcases hc with (((hc | hc) | hc) | hc) | ((hc | hc) | hc)
  · exact (blank_chars c (i.blanks c (by simp [hc]))).1
  · exact (name_chars i.entity c hc).2.1
  · exact (blank_chars c (i.blanks c (by simp [hc]))).1
  · subst hc
    decide
  · exact (blank_chars c (i.blanks c (by simp [hc]))).1
  · exact (digit_chars c (i.digits_dec c hc)).2.1
  · exact (blank_chars c (i.blanks c (by simp [hc]))).1

/-- The name and the number of an item, trimmed. -/
theorem map_trim_splitOnP_text (i : Item) :
    (i.text.splitOnP (fun c => (bytes "=").contains c)).map trim = [i.entity.name, i.digits] := by
  have hname : trim (i.lead ++ i.entity.name ++ i.beforeEq) = i.entity.name :=
    Fields.trim_padded (fun c hc => i.blanks c (by simp [hc])) (fun c hc => i.blanks c (by simp [hc]))
      (Fields.trimmed_of_forall fun c hc => (name_chars i.entity c hc).1)
  have hdigits : trim (i.afterEq ++ i.digits ++ i.trail) = i.digits :=
    Fields.trim_padded (fun c hc => i.blanks c (by simp [hc])) (fun c hc => i.blanks c (by simp [hc]))
      (Fields.trimmed_of_forall fun c hc => (digit_chars c (i.digits_dec c hc)).1)
  rw [splitOnP_text, List.map_cons, List.map_singleton, hname, hdigits]

/-- Cutting at characters that are no blanks and trimming the fields does not depend on blanks at the ends. -/
theorem map_trim_cut (d : Bytes) (hd : ∀ c ∈ d, isSpace c = false) (str : Bytes) :
    ((trim str).splitOnP (fun c => d.contains c)).map trim = (str.splitOnP (fun c => d.contains c)).map trim := by
  refine Fields.map_trim_splitOnP_trim (fun c hc => ?_) str
  by_contra hmem
  have := hd c (by simpa using hmem)
  rw [hc] at this
  exact Bool.noConfusion this

/-- What a pass of `attach_encapsulated` does with the trimmed fields of an item. -/
def applyFields (st : Header × Bool) : List Bytes → Header × Bool
  | [name, offset] =>
    match Entity.find? name with
    | some e => (st.1.setEncapsulated e (atoi offset), st.2)
    | none => st
  | _ => (st.1, false)

/-- What a pass of `attach_encapsulated` does with an item. -/
def applyItem (st : Header × Bool) (item : Bytes) : Header × Bool :=
  applyFields st ((item.splitOnP (fun c => (bytes "=").contains c)).map trim)

/-- Blanks around an item do not matter. -/
theorem applyItem_trim (st : Header × Bool) (item : Bytes) : applyItem st (trim item) = applyItem st item := by
  rw [applyItem, applyItem, map_trim_cut (bytes "=") (by decide)]

/-- A pass of `attach_encapsulated` does not fail. -/
theorem attachItem_eq (st : Header × Bool) (item : Bytes) : Header.attachItem st item = .ok (applyItem st item) := by
  rw [Header.attachItem, split_eq, ← applyItem_trim, applyItem]
  rcases (trim item).splitOnP (fun c => (bytes "=").contains c) with _ | ⟨name, _ | ⟨offset, _ | ⟨c, l⟩⟩⟩
  · rfl
  · rfl
  · show (match Entity.find? (trim name) with
      | some e => Except.ok (st.1.setEncapsulated e (atoi (trim offset)), st.2)
      | none => .ok (st.1, st.2) : Except Fault (Header × Bool)) = _
    simp only [List.map_cons, List.map_nil, applyFields]
    cases Entity.find? (trim name) <;> rfl
  · rfl

/-- The passes of `attach_encapsulated` over a list of items. -/
theorem foldlM_attachItem (items : List Bytes) : ∀ st : Header × Bool, items.foldlM Header.attachItem st =
    .ok (items.foldl applyItem st) := by
  induction items with
  | nil => exact fun st => rfl
  | cons item items ih =>
    intro st
    rw [List.foldlM_cons, attachItem_eq, List.foldl_cons]
    exact ih _

/-- The passes over the items of a list do not depend on blanks at the ends of the list. -/
theorem foldl_applyItem_trim (v : Bytes) (st : Header × Bool) :
    ((trim v).splitOnP (fun c => (bytes ",").contains c)).foldl applyItem st =
      (v.splitOnP (fun c => (bytes ",").contains c)).foldl applyItem st := by
  have hfold : ∀ l : List Bytes, l.foldl applyItem st = (l.map trim).foldl applyItem st := by
    intro l
    rw [List.foldl_map]
    simp only [applyItem_trim]
  rw [hfold, map_trim_cut (bytes ",") (by decide), ← hfold]

end EncapsulatedAux

open EncapsulatedAux

/-- `attach_encapsulated` does not fail. -/
theorem attachEncapsulated_eq (h : Header) (v : Bytes) :
    h.attachEncapsulated v = .ok ((v.splitOnP (fun c => (bytes ",").contains c)).foldl applyItem (h, true)) := by
  rw [Header.attachEncapsulated, split_eq, ← foldl_applyItem_trim]
  exact foldlM_attachItem _ _

/-- Blanks around the list do not matter. -/
theorem attachEncapsulated_trim (h : Header) (v : Bytes) : h.attachEncapsulated (trim v) = h.attachEncapsulated v := by
  rw [attachEncapsulated_eq, attachEncapsulated_eq, foldl_applyItem_trim]

/-- `attach_encapsulated` of a written list sets the offsets of its items. -/
theorem attachEncapsulated_listText (h : Header) {items : List Item} (hne : items ≠ []) (hlt : ∀ i ∈ items, i.offset < 2 ^ 31) :
    h.attachEncapsulated (listText items) = .ok (h.setEntries (items.map Item.entry), true) := by
  have hcut : (listText items).splitOnP (fun c => (bytes ",").contains c) = items.map Item.text := by
    have hsep : (bytes ",").contains 44 = true := by decide
    refine Fields.splitOnP_intercalate hsep (by simpa using hne) fun t ht => ?_
    obtain ⟨i, -, rfl⟩ := List.mem_map.mp ht
    exact comma_not_mem_text i
  have hfold : ∀ (items : List Item) (h : Header), (∀ i ∈ items, i.offset < 2 ^ 31) →
      items.foldl (fun st i => applyItem st i.text) (h, true) = (h.setEntries (items.map Item.entry), true) := by
    intro items
    induction items with
    | nil => exact fun h _ => rfl
    | cons i items ih =>
      intro h hlt
      have hatoi := atoi_digits i.digits_dec (hlt i List.mem_cons_self)
      rw [List.foldl_cons, applyItem, map_trim_splitOnP_text, applyFields, Entity.find?_name, hatoi]
      exact ih _ (fun j hj => hlt j (List.mem_cons_of_mem _ hj))
  rw [attachEncapsulated_eq, hcut, List.foldl_map, hfold items h hlt]

/-! ## Listed entities -/

/-- The header lists the entities of `l` with their offsets, and no others. -/
def Header.Lists (h : Header) (l : List (Entity × Int)) : Prop :=
  ∀ x : Entity × Int, x ∈ l ↔ h.encapsulated x.1 = x.2 ∧ 0 ≤ x.2

/-- What the header lists with increasing offsets is the end of the sorted header; the offsets before are negative. -/
theorem sortEncapsulated_of_lists {h : Header} {l : List (Entity × Int)} (hl : h.Lists l)
    (hsorted : l.Pairwise (fun a b => a.2 < b.2)) :
    ∃ low, h.sortEncapsulated = low ++ l ∧ ∀ x ∈ low, x.2 < 0 := by
  refine StableSort.sortBy_eq_append hsorted ?_
  have hinj : Function.Injective (fun e => (e, h.encapsulated e)) := fun e e' heq => congrArg Prod.fst heq
  have hnd : (Entity.all.map (fun e => (e, h.encapsulated e))).Nodup := List.Nodup.map hinj (by decide)
  have hnd' : l.Nodup := hsorted.imp (fun hlt heq => absurd (heq ▸ hlt) (lt_irrefl _))
  refine (List.perm_ext_iff_of_nodup (hnd.filter _) hnd').mpr fun x => ?_
  rw [hl x, List.mem_filter, List.mem_map, decide_eq_true_iff]
  refine and_congr_left fun _ => ⟨?_, fun heq => ⟨x.1, Entity.mem_all x.1, by rw [heq]⟩⟩
  rintro ⟨e, -, rfl⟩
  rfl

/-- An entity that is not set keeps its offset. -/
theorem setEntries_of_not_mem {e : Entity} : ∀ {l : List (Entity × Int)} (h : Header), (∀ x ∈ l, x.1 ≠ e) →
    (h.setEntries l).encapsulated e = h.encapsulated e
  | [], _, _ => rfl
  | y :: l, h, hne => by
    refine (setEntries_of_not_mem (h.setEncapsulated y.1 y.2) fun x hx => hne x (List.mem_cons_of_mem _ hx)).trans ?_
    rw [Header.setEncapsulated_encapsulated, if_neg (hne y List.mem_cons_self).symm]

/-- An entity that is set once has this offset. -/
theorem setEntries_of_mem {x : Entity × Int} : ∀ {l : List (Entity × Int)} (h : Header), (l.map Prod.fst).Nodup → x ∈ l →
    (h.setEntries l).encapsulated x.1 = x.2
  | [], _, _, hx => absurd hx (by simp)
  | y :: l, h, hnd, hx => by
    obtain ⟨hy, hnd⟩ := List.nodup_cons.mp hnd
    rcases List.mem_cons.mp hx with rfl | hx
    · refine (setEntries_of_not_mem (h.setEncapsulated x.1 x.2) fun z hz hze => hy (List.mem_map.mpr ⟨z, hz, hze⟩)).trans ?_
      rw [Header.setEncapsulated_encapsulated, if_pos rfl]
    · exact setEntries_of_mem (h.setEncapsulated y.1 y.2) hnd hx

/-- A header that lists nothing lists entries that have been set, where each entity has been set once and not to a negative
offset. -/
theorem lists_setEntries {h : Header} (hneg : ∀ e, h.encapsulated e < 0) {l : List (Entity × Int)}
    (hnd : (l.map Prod.fst).Nodup) (hnn : ∀ x ∈ l, 0 ≤ x.2) : (h.setEntries l).Lists l := by
  intro x
  constructor
  · exact fun hx => ⟨setEntries_of_mem h hnd hx, hnn x hx⟩
  · rintro ⟨heq, hx⟩
    by_cases hmem : ∃ y ∈ l, y.1 = x.1
    · obtain ⟨y, hy, hyx⟩ := hmem
      have hset := setEntries_of_mem h hnd hy
      rw [hyx, heq] at hset
      exact (Prod.ext hyx hset.symm : y = x) ▸ hy
    · have hlt := hneg x.1
      rw [← setEntries_of_not_mem h fun y hy hyx => hmem ⟨y, hy, hyx⟩] at hlt
      omega

/-! ## Printed lists -/

/-- An entry as `encapsulated_header_str` prints it. -/
def entryText (x : Entity × Int) : Bytes := x.1.name ++ bytes "=" ++ itoa x.2

def renderEntries (l : List (Entity × Int)) : Bytes := (bytes ", ").intercalate (l.map entryText)

/-- The entries `encapsulated_header_str` prints. -/
def Header.printed (h : Header) : List (Entity × Int) :=
  let l := h.sortEncapsulated.filter (fun x => decide (0 ≤ x.2))
  if l = [] then [(.nullBody, 0)] else l

namespace EncapsulatedAux

/-- The loop of `encapsulated_header_str` after the first printed entry. -/
theorem foldl_appendEntity : ∀ (l : List (Entity × Int)) {acc : Bytes}, acc ≠ [] → l.foldl Header.appendEntity acc =
    acc ++ (l.filter (fun x => decide (0 ≤ x.2))).flatMap (fun x => bytes ", " ++ entryText x)
  | [], acc, _ => (List.append_nil acc).symm
  | x :: l, acc, hacc => by
    rw [List.foldl_cons, Header.appendEntity]
    by_cases hx : 0 ≤ x.2
    · rw [if_pos hx, if_pos hacc, foldl_appendEntity l (by simp [hacc]), List.filter_cons_of_pos (by simpa using hx),
        List.flatMap_cons, entryText]
      simp only [List.append_assoc]
    · rw [if_neg hx, foldl_appendEntity l hacc, List.filter_cons_of_neg (by simpa using hx)]

/-- The loop of `encapsulated_header_str` prints the entries that are not negative. -/
theorem foldl_appendEntity_nil : ∀ l : List (Entity × Int), l.foldl Header.appendEntity [] =
    renderEntries (l.filter (fun x => decide (0 ≤ x.2)))
  | [] => rfl
  | x :: l => by
    rw [List.foldl_cons, Header.appendEntity]
    by_cases hx : 0 ≤ x.2
    · have hne : ([] : Bytes) ++ x.1.name ++ bytes "=" ++ itoa x.2 ≠ [] := by
        have heq : bytes "=" ≠ [] := by decide
        simp [heq]
      rw [if_pos hx, if_neg (by simp), foldl_appendEntity l hne, List.filter_cons_of_pos (by simpa using hx), renderEntries,
        List.map_cons, Fields.intercalate_cons_eq, List.flatMap_map, entryText]
      rfl
    · rw [if_neg hx, foldl_appendEntity_nil l, List.filter_cons_of_neg (by simpa using hx)]

/-- A list with an entry is not printed as the empty string. -/
theorem renderEntries_cons_ne_nil (x : Entity × Int) (l : List (Entity × Int)) : renderEntries (x :: l) ≠ [] := by
  have heq : bytes "=" ≠ [] := by decide
  rw [renderEntries, List.map_cons, Fields.intercalate_cons_eq, entryText]
  simp [heq]

end EncapsulatedAux

/-- `encapsulated_header_str` prints the entries, in order of their offsets. -/
theorem encapsulatedStr_eq (h : Header) : h.encapsulatedStr = renderEntries h.printed := by
  have key : ∀ l : List (Entity × Int), (if renderEntries l = [] then bytes "null-body=0" else renderEntries l) =
      renderEntries (if l = [] then [(.nullBody, 0)] else l) := by
    rintro (_ | ⟨x, l⟩)
    · decide
    · rw [if_neg (renderEntries_cons_ne_nil x l), if_neg (List.cons_ne_nil x l)]
  unfold Header.encapsulatedStr Header.printed
  simp only [foldl_appendEntity_nil]
  exact key _

namespace EncapsulatedAux

theorem itoa_chars (x : Int) : ∀ c ∈ itoa x, c ≠ 44 ∧ c ≠ 61 := by
  intro c hc
  rcases mem_itoa hc with rfl | hc
  · decide
  · exact ⟨(digit_chars c hc).2.1, (digit_chars c hc).2.2.1⟩

/-- The name and the offset of a printed entry. -/
theorem splitOnP_entryText (x : Entity × Int) : (entryText x).splitOnP (fun c => c == 61) = [x.1.name, itoa x.2] := by
  have heq : bytes "=" = [61] := rfl
  have h1 : ∀ c ∈ x.1.name, (c == (61 : Byte)) = false := fun c hc => by simpa using (name_chars x.1 c hc).2.2.1
  have h2 : ∀ c ∈ itoa x.2, (c == (61 : Byte)) = false := fun c hc => by simpa using (itoa_chars x.2 c hc).2
  rw [entryText, heq, List.append_assoc, List.singleton_append, List.splitOnP_append_cons_of_forall_mem h1 61 (by decide),
    List.splitOnP_eq_singleton h2]

/-- Different entries are printed differently. -/
theorem entryText_injective : Function.Injective entryText := by
  intro x y h
  have hxy := splitOnP_entryText x
  rw [h, splitOnP_entryText y] at hxy
  obtain ⟨hname, hoff⟩ := List.cons.inj hxy
  have hfind := congrArg Entity.find? hname
  rw [Entity.find?_name, Entity.find?_name] at hfind
  exact Prod.ext (Option.some.inj hfind).symm (itoa_injective (List.cons.inj hoff).1).symm

theorem comma_not_mem_entryText (x : Entity × Int) : ∀ c ∈ entryText x, (c == (44 : Byte)) = false := by
  have heq : bytes "=" = [61] := rfl
  intro c hc
  rw [entryText, heq, List.mem_append, List.mem_append, List.mem_singleton] at hc
  rcases hc with (hc | rfl) | hc
  · simpa using (name_chars x.1 c hc).2.1
  · decide
  · simpa using (itoa_chars x.2 c hc).1

/-- The pieces of a printed list between the commas: the entries, with a blank before each but the first. -/
theorem splitOnP_renderEntries (x : Entity × Int) (l : List (Entity × Int)) :
    (renderEntries (x :: l)).splitOnP (fun c => c == 44) = entryText x :: l.map (fun y => 32 :: entryText y) := by
  have hsep : bytes ", " = [44, 32] := rfl
  have hform : renderEntries (x :: l) = [44].intercalate (entryText x :: l.map (fun y => 32 :: entryText y)) := by
    rw [renderEntries, List.map_cons, Fields.intercalate_cons_eq, Fields.intercalate_cons_eq, hsep, List.flatMap_map,
      List.flatMap_map]
    rfl
  rw [hform]
  refine Fields.splitOnP_intercalate (by rfl) (List.cons_ne_nil _ _) fun t ht c hc => ?_
  rcases List.mem_cons.mp ht with rfl | ht
  · exact comma_not_mem_entryText x c hc
  · obtain ⟨y, -, rfl⟩ := List.mem_map.mp ht
    rcases List.mem_cons.mp hc with rfl | hc
    · decide
    · exact comma_not_mem_entryText y c hc

end EncapsulatedAux

/-- Different lists of entries are printed differently. -/
theorem renderEntries_injective : Function.Injective renderEntries := by
  rintro (_ | ⟨x, l⟩) (_ | ⟨y, m⟩) h
  · rfl
  · exact absurd h.symm (renderEntries_cons_ne_nil y m)
  · exact absurd h (renderEntries_cons_ne_nil x l)
  · have hxy := splitOnP_renderEntries x l
    rw [h, splitOnP_renderEntries y m] at hxy
    obtain ⟨h1, h2⟩ := List.cons.inj hxy
    have hinj : Function.Injective (fun z : Entity × Int => (32 : Byte) :: entryText z) :=
      fun u v huv => entryText_injective (List.cons.inj huv).2
    rw [entryText_injective h1, List.map_injective_iff.mpr hinj h2]

/-- A header prints what it lists with increasing offsets. -/
theorem printed_of_lists {h : Header} {l : List (Entity × Int)} (hl : h.Lists l)
    (hsorted : l.Pairwise (fun a b => a.2 < b.2)) (hne : l ≠ []) : h.printed = l := by
  obtain ⟨low, hsort, hlow⟩ := sortEncapsulated_of_lists hl hsorted
  have hfilter : h.sortEncapsulated.filter (fun x => decide (0 ≤ x.2)) = l := by
    rw [hsort, List.filter_append, List.filter_eq_nil_iff.mpr (fun x hx => by simpa using hlow x hx), List.nil_append,
      List.filter_eq_self]
    intro x hx
    simpa using ((hl x).mp hx).2
  unfold Header.printed
  simp only [hfilter, hne, if_false]

/-! ## Listed offsets -/

namespace Header

/-- The entries with offsets that are not negative, as the sort leaves them. -/
def listed (h : Header) : List (Entity × Int) := h.sortEncapsulated.filter (fun x => decide (0 ≤ x.2))

theorem mem_listed {h : Header} {x : Entity × Int} : x ∈ h.listed ↔ h.encapsulated x.1 = x.2 ∧ 0 ≤ x.2 := by
  rw [listed, List.mem_filter, mem_sortEncapsulated, decide_eq_true_iff]

/-- Each entity is listed once. -/
theorem nodup_listed (h : Header) : (h.listed.map Prod.fst).Nodup := by
  have hperm : (h.sortEncapsulated.map Prod.fst).Perm Entity.all := by
    have hsort : h.sortEncapsulated.Perm (Entity.all.map fun e => (e, h.encapsulated e)) := StableSort.sortBy_perm _
    have hmap := hsort.map Prod.fst
    rwa [List.map_map, show (Prod.fst ∘ fun e => (e, h.encapsulated e)) = id from rfl, List.map_id] at hmap
  have hnd : Entity.all.Nodup := by decide
  exact (hperm.nodup_iff.mpr hnd).sublist (List.filter_sublist.map Prod.fst)

/-- Two headers list the same entries exactly if they agree where one of them has an offset that is not negative. -/
theorem listed_eq_iff {h h' : Header} : h.listed = h'.listed ↔
    ∀ e, 0 ≤ h.encapsulated e ∨ 0 ≤ h'.encapsulated e → h.encapsulated e = h'.encapsulated e := by
  constructor
  · rintro heq e (hnn | hnn)
    · exact (mem_listed.mp (heq ▸ mem_listed.mpr ⟨rfl, hnn⟩ : (e, h.encapsulated e) ∈ h'.listed)).1.symm
    · exact (mem_listed.mp (heq ▸ mem_listed.mpr ⟨rfl, hnn⟩ : (e, h'.encapsulated e) ∈ h.listed)).1
  · intro hagree
    have hform : ∀ h : Header, h.listed = StableSort.sortBy Prod.snd
        ((Entity.all.filter (fun e => decide (0 ≤ h.encapsulated e))).map (fun e => (e, h.encapsulated e))) := by
      intro h
      rw [listed, sortEncapsulated, StableSort.filter_sortBy, List.filter_map]
      rfl
    have hsign : ∀ e, (0 ≤ h.encapsulated e ↔ 0 ≤ h'.encapsulated e) := fun e =>
      ⟨fun hnn => hagree e (.inl hnn) ▸ hnn, fun hnn => (hagree e (.inr hnn)).symm ▸ hnn⟩
    rw [hform, hform]
    refine congrArg _ ?_
    simp only [hsign]
    refine List.map_congr_left fun e he => ?_
    rw [hagree e (.inr (by simpa using (List.mem_filter.mp he).2))]

/-- A header that lists something prints what it lists. -/
theorem encapsulatedStr_of_listed {h : Header} (hne : h.listed ≠ []) : h.encapsulatedStr = renderEntries h.listed := by
  rw [encapsulatedStr_eq, show h.printed = h.listed from if_neg hne]

end Header

end BitzServer
