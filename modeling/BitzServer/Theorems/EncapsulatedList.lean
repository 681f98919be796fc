import BitzServer.Icap.Encapsulated

/-!
# Encapsulated lists, there and back

What `encapsulated_header_str` prints, in any order and with any blanks, is read back by `attach_encapsulated` as the offsets that are
not negative, and is printed again as the same string.
-/

namespace BitzServer

/-- An item without blanks. -/
def Item.core (i : Item) : Bytes := i.entity.name ++ bytes "=" ++ i.digits

/-- The items of a printed list: what stands between the commas, trimmed. -/
def printedItems (str : Bytes) : List Bytes := (str.splitOnP (fun c => c == 44)).map trim

namespace EncapsulatedListAux

open EncapsulatedAux

/-- The entry an item without blanks stands for. -/
def decodeItem (text : Bytes) : Entity × Int :=
  match text.splitOnP (fun c => c == 61) with
  | [name, digits] => ((Entity.find? name).getD .nullBody, (decValue digits : Int))
  | _ => (.nullBody, 0)

theorem decodeItem_core (i : Item) : decodeItem i.core = i.entry := by
  have heq : bytes "=" = [61] := rfl
  have h1 : ∀ c ∈ i.entity.name, (c == (61 : Byte)) = false := fun c hc => by simpa using (name_chars i.entity c hc).2.2.1
  have h2 : ∀ c ∈ i.digits, (c == (61 : Byte)) = false := fun c hc => by simpa using (digit_chars c (i.digits_dec c hc)).2.2.1
  rw [decodeItem, Item.core, heq, List.append_assoc, List.singleton_append,
    List.splitOnP_append_cons_of_forall_mem h1 61 (by decide), List.splitOnP_eq_singleton h2]
  simp only [Entity.find?_name]
  rfl

theorem decodeItem_entryText {x : Entity × Int} (hx : 0 ≤ x.2) : decodeItem (entryText x) = x := by
  have hitoa : (decValue (itoa x.2) : Int) = x.2 := by
    rw [itoa, if_neg (by omega), List.nil_append, decValue_numeral]
    omega
  rw [decodeItem, splitOnP_entryText]
  simp only [Entity.find?_name, hitoa]
  rfl

/-- A printed entry has no blanks. -/
theorem trim_entryText (x : Entity × Int) : trim (entryText x) = entryText x := by
  have heq : bytes "=" = [61] := rfl
  have hitoa : ∀ c ∈ itoa x.2, isSpace c = false := by
    intro c hc
    rcases mem_itoa hc with rfl | hc
    · decide
    · exact (digit_chars c hc).1
  refine Fields.trim_eq_self (Fields.trimmed_of_forall fun c hc => ?_)
  rw [entryText, heq, List.mem_append, List.mem_append, List.mem_singleton] at hc
  rcases hc with (hc | rfl) | hc
  · exact (name_chars x.1 c hc).1
  · decide
  · exact hitoa c hc

/-- The items of a printed list are its entries. -/
theorem printedItems_renderEntries {l : List (Entity × Int)} (hne : l ≠ []) : printedItems (renderEntries l) = l.map entryText := by
  obtain ⟨x, l, rfl⟩ := List.exists_cons_of_ne_nil hne
  have htail : l.map (fun y => trim (32 :: entryText y)) = l.map entryText := by
    refine List.map_congr_left fun y _ => ?_
    have hblank : ∀ c ∈ ([32] : Bytes), isSpace c = true := by decide
    exact (Fields.trim_blanks_append hblank (entryText y)).trans (trim_entryText y)
  rw [printedItems, splitOnP_renderEntries, List.map_cons, List.map_map, trim_entryText, List.map_cons]
  exact congrArg _ htail

end EncapsulatedListAux

open EncapsulatedAux EncapsulatedListAux

/-- A printed list, its items in any order and with any blanks, is read as the offsets that are not negative, and printed again as it
was. -/
theorem attachEncapsulated_printed {h : Header} (hint : h.IntOffsets) (hsome : ∃ e, 0 ≤ h.encapsulated e) {items : List Item}
    (hitems : (items.map Item.core).Perm (printedItems h.encapsulatedStr)) : ∃ h',
      Header.new.attachEncapsulated (listText items) = .ok (h', true) ∧
      (∀ e, h'.encapsulated e = if h.encapsulated e < 0 then -1 else h.encapsulated e) ∧
      h'.encapsulatedStr = h.encapsulatedStr := by
  obtain ⟨e₀, he₀⟩ := hsome
  have hne : h.listed ≠ [] := List.ne_nil_of_mem (Header.mem_listed.mpr ⟨rfl, he₀⟩ : (e₀, h.encapsulated e₀) ∈ h.listed)
  have hperm : (items.map Item.entry).Perm h.listed := by
    rw [Header.encapsulatedStr_of_listed hne, printedItems_renderEntries hne] at hitems
    have hdecode := hitems.map decodeItem
    have hentries : h.listed.map (decodeItem ∘ entryText) = h.listed.map id :=
      List.map_congr_left fun x hx => decodeItem_entryText (Header.mem_listed.mp hx).2
    rw [List.map_map, List.map_map, hentries, List.map_id, show decodeItem ∘ Item.core = Item.entry from funext decodeItem_core] at hdecode
    exact hdecode
  have hitem : ∀ i ∈ items, i.offset < 2 ^ 31 := by
    intro i hi
    have hmem : i.entry ∈ h.listed := hperm.mem_iff.mp (List.mem_map_of_mem hi)
    have hlt := (hint i.entity).2
    rw [show h.encapsulated i.entity = i.offset from (Header.mem_listed.mp hmem).1] at hlt
    omega
  have hitems_ne : items ≠ [] := by
    rintro rfl
    exact hne hperm.symm.eq_nil
  have hnd : ((items.map Item.entry).map Prod.fst).Nodup := (hperm.map Prod.fst).nodup_iff.mpr h.nodup_listed
  have hoffsets : ∀ e, (Header.new.setEntries (items.map Item.entry)).encapsulated e =
      if h.encapsulated e < 0 then -1 else h.encapsulated e := by
    intro e
    by_cases hneg : h.encapsulated e < 0
    · rw [if_pos hneg, setEntries_of_not_mem Header.new fun x hx hxe => ?_]
      · rfl
      · obtain ⟨heq, hnn⟩ := Header.mem_listed.mp (hperm.mem_iff.mp hx)
        rw [hxe] at heq
        omega
    · rw [if_neg hneg]
      have hmem : (e, h.encapsulated e) ∈ items.map Item.entry := hperm.mem_iff.mpr (Header.mem_listed.mpr ⟨rfl, not_lt.mp hneg⟩)
      exact setEntries_of_mem Header.new hnd hmem
  refine ⟨_, attachEncapsulated_listText Header.new hitems_ne hitem, hoffsets, ?_⟩
  have hlisted : (Header.new.setEntries (items.map Item.entry)).listed = h.listed := by
    refine Header.listed_eq_iff.mpr fun e hor => ?_
    rw [hoffsets] at hor ⊢
    by_cases hneg : h.encapsulated e < 0
    · rw [if_pos hneg] at hor
      omega
    · rw [if_neg hneg]
  rw [Header.encapsulatedStr_of_listed (hlisted ▸ hne), Header.encapsulatedStr_of_listed hne, hlisted]

/-- A header with two offsets. -/
def twoOffsets : Header := (Header.new.setEncapsulated .reqHdr 12).setEncapsulated .reqBody 170

/-- Its items in the other order, with blanks. -/
def swappedItems : List Item :=
  [⟨.reqBody, bytes "170", [9], [32], [32, 32], [32], by decide, by decide, by decide⟩,
    ⟨.reqHdr, bytes "12", [], [9], [], [], by decide, by decide, by decide⟩]

theorem attachEncapsulated_printed_swapped : ∃ h', Header.new.attachEncapsulated (bytes "\treq-body =  170 ,req-hdr\t=12") = .ok (h', true) ∧
    (∀ e, h'.encapsulated e = if twoOffsets.encapsulated e < 0 then -1 else twoOffsets.encapsulated e) ∧
    h'.encapsulatedStr = twoOffsets.encapsulatedStr := by
  have hprinted : printedItems twoOffsets.encapsulatedStr = [bytes "req-hdr=12", bytes "req-body=170"] := by rfl
  have hitems : (swappedItems.map Item.core).Perm (printedItems twoOffsets.encapsulatedStr) := by
    rw [hprinted]
    exact List.Perm.swap ..
  have htext : listText swappedItems = bytes "\treq-body =  170 ,req-hdr\t=12" := by decide +kernel
  rw [← htext]
  exact attachEncapsulated_printed (h := twoOffsets) (fun e => by cases e <;> decide) ⟨.reqHdr, by decide⟩ hitems

end BitzServer
