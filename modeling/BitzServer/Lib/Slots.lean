import Mathlib.Data.List.Perm.Subperm

/-!
# Tables of slots

A table of a fixed length whose slots are used or empty: the used values, and what clearing the first slot with a value and filling
an empty slot do to them.
-/

namespace Slots

variable {α : Type} [DecidableEq α] {empty : α}

/-- The values of the slots that are not empty. -/
def used (empty : α) (table : List α) : List α := table.filter (fun a => a ≠ empty)

/-- Clear the first slot with each of the values, one after the other. -/
def clear (empty : α) (table values : List α) : List α := values.foldl (fun table a => table.replace a empty) table

theorem mem_used {table : List α} {a : α} : a ∈ used empty table ↔ a ∈ table ∧ a ≠ empty := by
  simp [used]

@[simp]
theorem used_append (left right : List α) : used empty (left ++ right) = used empty left ++ used empty right :=
  List.filter_append ..

/-- Clearing a slot takes its value from the used ones. -/
theorem used_replace {a : α} (ha : a ≠ empty) (table : List α) : used empty (table.replace a empty) = (used empty table).erase a := by
  induction table with
  | nil => rfl
  | cons b table ih =>
    by_cases hab : b = a
    · subst hab
      simp [used, ha]
    · have hne : (a == b) = false := by simpa using Ne.symm hab
      rw [List.replace_cons, hne]
      by_cases hb : b = empty
      · subst hb
        simpa [used] using ih
      · simpa [used, hb, List.erase_cons, hab] using ih

/-- Clearing slots takes their values from the used ones. -/
theorem used_clear : ∀ {values : List α} (table : List α), (∀ a ∈ values, a ≠ empty) →
    used empty (clear empty table values) = (used empty table).diff values
  | [], _, _ => rfl
  | a :: values, table, h => by
    rw [List.diff_cons, ← used_replace (h a List.mem_cons_self)]
    exact used_clear (table.replace a empty) fun b hb => h b (List.mem_cons_of_mem _ hb)

theorem length_clear : ∀ (values table : List α), (clear empty table values).length = table.length
  | [], _ => rfl
  | _ :: values, _ => (length_clear values _).trans List.length_replace

/-- Values that are in no slot clear none. -/
theorem clear_of_not_mem : ∀ {values table : List α}, (∀ a ∈ values, a ∉ table) → clear empty table values = table
  | [], _, _ => rfl
  | a :: values, table, h => by
    rw [clear, List.foldl_cons, List.replace_of_not_mem (h a List.mem_cons_self)]
    exact clear_of_not_mem fun b hb => h b (List.mem_cons_of_mem _ hb)

/-- Values that stand in the first part of a table are cleared there. -/
theorem clear_append : ∀ {values left : List α} (right : List α), values.Nodup → (∀ a ∈ values, a ∈ used empty left) →
    clear empty (left ++ right) values = clear empty left values ++ right
  | [], _, _, _, _ => rfl
  | a :: values, left, right, hnd, h => by
    obtain ⟨ha, hnd⟩ := List.nodup_cons.mp hnd
    obtain ⟨hmem, hne⟩ := mem_used.mp (h a List.mem_cons_self)
    rw [clear, List.foldl_cons, List.replace_append_left hmem]
    refine clear_append right hnd fun b hb => ?_
    rw [used_replace hne]
    exact (List.mem_erase_of_ne (ne_of_mem_of_not_mem hb ha)).mpr (h b (List.mem_cons_of_mem _ hb))

/-- The first slots after values that stand in them are cleared. -/
theorem take_clear {i : Nat} {values table : List α} (hnd : values.Nodup) (h : ∀ a ∈ values, a ∈ used empty (table.take i)) :
    (clear empty table values).take i = clear empty (table.take i) values := by
  have hsplit := clear_append (table.drop i) hnd h
  rw [List.take_append_drop] at hsplit
  have hlen : (clear empty (table.take i) values).length = min i table.length := by
    rw [length_clear, List.length_take]
  rw [hsplit]
  rcases Nat.le_total i table.length with hi | hi
  · exact List.take_left' (by omega)
  · rw [List.drop_eq_nil_of_le hi, List.append_nil]
    exact List.take_of_length_le (by omega)

/-- An empty slot stays empty when another one is cleared. -/
theorem getElem?_replace (a : α) : ∀ {table : List α} {i : Nat}, table[i]? = some empty → (table.replace a empty)[i]? = some empty
  | [], _, h => absurd h (by simp)
  | b :: table, i, h => by
    rw [List.replace_cons]
    cases a == b with
    | true =>
      cases i with
      | zero => rfl
      | succ i => exact h
    | false =>
      cases i with
      | zero => exact h
      | succ i => exact getElem?_replace a h

/-- An empty slot stays empty. -/
theorem getElem?_clear {i : Nat} : ∀ (values : List α) {table : List α}, table[i]? = some empty →
    (clear empty table values)[i]? = some empty
  | [], _, h => h
  | a :: values, _, h => getElem?_clear values (getElem?_replace a h)

/-- The first slots after the one behind them is filled. -/
theorem take_set_succ {β : Type} {i : Nat} {table : List β} (hi : i < table.length) (a : β) :
    (table.set i a).take (i + 1) = table.take i ++ [a] := by
  have hlen : (table.take i).length = i := by rw [List.length_take, Nat.min_eq_left (Nat.le_of_lt hi)]
  rw [List.take_set, List.take_succ_eq_append_getElem hi, List.set_append_right _ _ (Nat.le_of_eq hlen), hlen, Nat.sub_self]
  rfl

/-- Filling an empty slot adds a used value. -/
theorem used_set {i : Nat} {a : α} (ha : a ≠ empty) : ∀ {table : List α}, table[i]? = some empty →
    (used empty (table.set i a)).Perm (a :: used empty table) := by
  induction i with
  | zero =>
    rintro (_ | ⟨b, table⟩) h
    · exact absurd h (by simp)
    · obtain rfl : b = empty := by simpa using h
      simp [used, ha]
  | succ i ih =>
    rintro (_ | ⟨b, table⟩) h
    · exact absurd h (by simp)
    · have hslot : table[i]? = some empty := by simpa using h
      have htable := ih hslot
      by_cases hb : b = empty
      · simpa [used, hb] using htable
      · have : (b :: used empty (table.set i a)).Perm (a :: b :: used empty table) := (htable.cons b).trans (List.Perm.swap a b _)
        simpa [used, hb] using this

/-- A table with as many used values as slots has no empty slot. -/
theorem ne_empty_of_length {table : List α} (h : (used empty table).length = table.length) : ∀ a ∈ table, a ≠ empty := by
  have := List.length_filter_eq_length_iff.mp h
  simpa using this

/-- What is left after clearing slots, from what the used values were. -/
theorem perm_of_perm_append {table others live values : List α} (h : (used empty table ++ others).Perm (live ++ values))
    (hvalues : ∀ a ∈ values, a ∈ used empty table) (hnd : values.Nodup) :
    (used empty (clear empty table values) ++ others).Perm live := by
  have hsub : values.Subperm (used empty table) := List.subperm_of_subset hnd hvalues
  have hused := used_clear table fun a ha => (mem_used.mp (hvalues a ha)).2
  have hdiff : (values ++ (used empty table).diff values).Perm (used empty table) :=
    List.subperm_append_diff_self_of_count_le (List.subperm_ext_iff.mp hsub)
  rw [hused]
  refine (List.perm_append_left_iff values).mp ?_
  rw [← List.append_assoc]
  exact ((hdiff.append_right others).trans h).trans List.perm_append_comm

end Slots
