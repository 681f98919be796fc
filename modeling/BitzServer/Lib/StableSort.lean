import Mathlib.Data.List.Sort

/-!
# Sorting by a key, stably

Insertion sort by a key keeps the order of elements with equal keys. Two facts are used: which element comes last, and what
the part with keys above a bound looks like when it is known as a strictly increasing list.
-/

namespace StableSort

variable {α κ : Type} [LinearOrder κ]

/-- Insertion sort by the key, stable. -/
def sortBy (key : α → κ) (l : List α) : List α := l.insertionSort (fun a b => key a ≤ key b)

variable {key : α → κ}

theorem sortBy_perm (l : List α) : (sortBy key l).Perm l := List.perm_insertionSort _ l

/-- The sorted list is in order of the keys. -/
theorem sortBy_pairwise (l : List α) : (sortBy key l).Pairwise (fun a b => key a ≤ key b) := by
  have : Std.Total (fun a b : α => key a ≤ key b) := ⟨fun a b => le_total (key a) (key b)⟩
  have : IsTrans α (fun a b : α => key a ≤ key b) := ⟨fun _ _ _ h h' => le_trans h h'⟩
  exact List.pairwise_insertionSort _ l

theorem mem_sortBy {l : List α} {x : α} : x ∈ sortBy key l ↔ x ∈ l := (sortBy_perm l).mem_iff

/-- Inserting an element with a key not above that of the last one leaves the last one in place. -/
theorem getLast?_orderedInsert_of_le {a x : α} : ∀ {l : List α}, l.getLast? = some x → key a ≤ key x →
    (l.orderedInsert (fun a b => key a ≤ key b) a).getLast? = some x
  | [], h, _ => by simp at h
  | b :: l, h, hle => by
    rw [List.orderedInsert_cons]
    by_cases hab : key a ≤ key b
    · rw [if_pos hab, List.getLast?_cons_cons, h]
    · rw [if_neg hab]
      cases l with
      | nil =>
        rw [List.getLast?_singleton, Option.some.injEq] at h
        exact absurd (h ▸ hle) hab
      | cons c l =>
        rw [List.getLast?_cons_cons] at h
        have ih := getLast?_orderedInsert_of_le h hle
        rw [List.getLast?_cons, ih]
        rfl

/-- Inserting an element with a key above all others puts it last. -/
theorem getLast?_orderedInsert_of_lt {a : α} : ∀ {l : List α}, (∀ y ∈ l, key y < key a) →
    (l.orderedInsert (fun a b => key a ≤ key b) a).getLast? = some a
  | [], _ => rfl
  | b :: l, h => by
    have hb : ¬key a ≤ key b := not_le.mpr (h b List.mem_cons_self)
    rw [List.orderedInsert_cons, if_neg hb, List.getLast?_cons,
      getLast?_orderedInsert_of_lt (fun y hy => h y (List.mem_cons_of_mem _ hy))]
    rfl

/-- The last element of the sorted list is the last one, in the order of the list, among those with the greatest key. -/
theorem getLast?_sortBy {x : α} {l₁ l₂ : List α} (h₁ : ∀ y ∈ l₁, key y ≤ key x) (h₂ : ∀ y ∈ l₂, key y < key x) :
    (sortBy key (l₁ ++ x :: l₂)).getLast? = some x := by
  induction l₁ with
  | nil =>
    rw [List.nil_append, sortBy, List.insertionSort_cons]
    exact getLast?_orderedInsert_of_lt (fun y hy => h₂ y (mem_sortBy.mp hy))
  | cons a l₁ ih =>
    rw [List.cons_append, sortBy, List.insertionSort_cons]
    exact getLast?_orderedInsert_of_le (ih (fun y hy => h₁ y (List.mem_cons_of_mem _ hy))) (h₁ a List.mem_cons_self)

/-- Inserting and then leaving out small keys is leaving them out first. -/
theorem filter_orderedInsert (k : κ) (a : α) : ∀ l : List α,
    (l.orderedInsert (fun a b => key a ≤ key b) a).filter (fun b => decide (k ≤ key b)) =
      if k ≤ key a then (l.filter (fun b => decide (k ≤ key b))).orderedInsert (fun a b => key a ≤ key b) a
      else l.filter (fun b => decide (k ≤ key b))
  | [] => by
    rw [List.orderedInsert_nil, List.filter_singleton]
    by_cases ha : k ≤ key a <;> simp [ha]
  | b :: l => by
    have ih := filter_orderedInsert k a l
    rw [List.orderedInsert_cons]
    by_cases hab : key a ≤ key b
    · rw [if_pos hab]
      by_cases ha : k ≤ key a
      · have hb : k ≤ key b := le_trans ha hab
        simp [ha, hb, hab]
      · simp [ha]
    · rw [if_neg hab, List.filter_cons, ih]
      by_cases hb : k ≤ key b
      · by_cases ha : k ≤ key a <;> simp [ha, hb, hab]
      · simp [hb]

/-- Leaving out small keys and sorting can be done in either order. -/
theorem filter_sortBy (k : κ) (l : List α) :
    (sortBy key l).filter (fun a => decide (k ≤ key a)) = sortBy key (l.filter (fun a => decide (k ≤ key a))) := by
  induction l with
  | nil => rfl
  | cons a l ih =>
    rw [sortBy, List.insertionSort_cons, filter_orderedInsert, ← sortBy, ih, List.filter_cons]
    by_cases ha : k ≤ key a
    · simp only [ha, if_true, decide_true]
      rfl
    · simp only [ha, if_false, decide_false, Bool.false_eq_true]

/-- A list in order of the keys is its part below a bound followed by the rest. -/
theorem filter_append_filter (k : κ) : ∀ {l : List α}, l.Pairwise (fun a b => key a ≤ key b) →
    l = l.filter (fun a => decide (key a < k)) ++ l.filter (fun a => decide (k ≤ key a))
  | [], _ => rfl
  | a :: l, h => by
    obtain ⟨ha, hl⟩ := List.pairwise_cons.mp h
    by_cases hk : key a < k
    · have hn : ¬k ≤ key a := not_le.mpr hk
      simp only [List.filter_cons, hk, hn, decide_true, decide_false, if_true, Bool.false_eq_true, if_false,
        List.cons_append]
      rw [← filter_append_filter k hl]
    · have hn : k ≤ key a := not_lt.mp hk
      have hnone : l.filter (fun b => decide (key b < k)) = [] := by
        rw [List.filter_eq_nil_iff]
        intro b hb
        simpa using le_trans hn (ha b hb)
      have hall : l.filter (fun b => decide (k ≤ key b)) = l := by
        rw [List.filter_eq_self]
        intro b hb
        simpa using le_trans hn (ha b hb)
      simp only [List.filter_cons, hk, hn, decide_true, decide_false, if_true, Bool.false_eq_true, if_false, hnone, hall,
        List.nil_append]

/-- The part of the sorted list with keys at least `k` is any strictly increasing list of the same elements. -/
theorem filter_sortBy_eq {k : κ} {l e : List α} (he : e.Pairwise (fun a b => key a < key b))
    (hp : (l.filter (fun a => decide (k ≤ key a))).Perm e) :
    (sortBy key l).filter (fun a => decide (k ≤ key a)) = e := by
  have hperm : ((sortBy key l).filter (fun a => decide (k ≤ key a))).Perm e := ((sortBy_perm l).filter _).trans hp
  have hinj : ∀ a ∈ e, ∀ b ∈ e, key a = key b → a = b := by
    have hnd : (e.map key).Nodup := by
      rw [List.Nodup, List.pairwise_map]
      exact he.imp (fun h => ne_of_lt h)
    exact fun a ha b hb hab => List.inj_on_of_nodup_map hnd ha hb hab
  have hsorted := (sortBy_pairwise l : (sortBy key l).Pairwise _).filter (fun a => decide (k ≤ key a))
  have hele : e.Pairwise (fun a b => key a ≤ key b) := he.imp (fun h => le_of_lt h)
  refine List.Perm.eq_of_pairwise ?_ hsorted hele hperm
  intro a b ha hb hab hba
  exact hinj a (hperm.mem_iff.mp ha) b hb (le_antisymm hab hba)

/-- The sorted list ends with any strictly increasing list of its elements with keys at least `k`; what stands before has
smaller keys. -/
theorem sortBy_eq_append {k : κ} {l e : List α} (he : e.Pairwise (fun a b => key a < key b))
    (hp : (l.filter (fun a => decide (k ≤ key a))).Perm e) :
    ∃ low, sortBy key l = low ++ e ∧ ∀ a ∈ low, key a < k := by
  refine ⟨(sortBy key l).filter (fun a => decide (key a < k)), ?_, ?_⟩
  · have h := filter_append_filter k (sortBy_pairwise l : (sortBy key l).Pairwise _)
    rwa [filter_sortBy_eq he hp] at h
  · intro a ha
    simpa using (List.mem_filter.mp ha).2

end StableSort
