import Mathlib.Data.List.Basic

/-!
# Maps as sorted association lists

A finite map as the list of its entries in the order of the keys, as an iteration over it yields them. Looking up is
`List.lookup`.
-/

namespace KeyMap

variable {κ ν : Type} [DecidableEq κ] [LT κ] [DecidableLT κ]

/-- Give the key a value, in the place of its old value or in its place in the order. -/
def set (key : κ) (value : ν) : List (κ × ν) → List (κ × ν)
  | [] => [(key, value)]
  | (k, v) :: m =>
    if k = key then (key, value) :: m
    else if key < k then (key, value) :: (k, v) :: m
    else (k, v) :: set key value m

/-- A key that is not there yet gets an entry, and the others stay. -/
theorem set_perm {key : κ} (value : ν) : ∀ {m : List (κ × ν)}, (∀ x ∈ m, x.1 ≠ key) → (set key value m).Perm ((key, value) :: m)
  | [], _ => List.Perm.refl _
  | (k, v) :: m, h => by
    rw [set, if_neg (h (k, v) List.mem_cons_self)]
    by_cases hlt : key < k
    · rw [if_pos hlt]
    · rw [if_neg hlt]
      exact ((set_perm value fun x hx => h x (List.mem_cons_of_mem _ hx)).cons _).trans (List.Perm.swap ..)

/-- Take the entry of a key out. -/
def erase (key : κ) (m : List (κ × ν)) : List (κ × ν) := m.filter (fun x => x.1 ≠ key)

/-- An entry is the one that was given or one that was there. -/
theorem mem_set {key : κ} {value : ν} {x : κ × ν} : ∀ {m : List (κ × ν)}, x ∈ set key value m → x = (key, value) ∨ x ∈ m
  | [], h => .inl (List.mem_singleton.mp h)
  | (k, v) :: m, h => by
    rw [set] at h
    by_cases hk : k = key
    · rw [if_pos hk] at h
      exact (List.mem_cons.mp h).imp_right (List.mem_cons_of_mem _)
    · rw [if_neg hk] at h
      by_cases hlt : key < k
      · rw [if_pos hlt] at h
        exact List.mem_cons.mp h
      · rw [if_neg hlt] at h
        rcases List.mem_cons.mp h with rfl | h
        · exact .inr List.mem_cons_self
        · exact (mem_set h).imp_right (List.mem_cons_of_mem _)

/-! ## The order of the entries -/

/-- The entries stand in the order of their keys, with one for each key. -/
def Sorted (m : List (κ × ν)) : Prop := m.Pairwise (fun x y => x.1 < y.1)

omit [DecidableLT κ] in
theorem Sorted.erase {m : List (κ × ν)} (h : Sorted m) (key : κ) : Sorted (erase key m) := List.Pairwise.filter _ h

theorem Sorted.set [Trans (α := κ) (β := κ) (γ := κ) (· < ·) (· < ·) (· < ·)] [Std.Trichotomous (α := κ) (· < ·)]
    {m : List (κ × ν)} (h : Sorted m) (key : κ) (value : ν) : Sorted (set key value m) := by
  induction m with
  | nil => exact List.pairwise_singleton _ _
  | cons x m ih =>
    obtain ⟨k, v⟩ := x
    obtain ⟨hfirst, hm⟩ := List.pairwise_cons.mp h
    rw [KeyMap.set]
    by_cases hk : k = key
    · subst hk
      rw [if_pos rfl]
      exact List.pairwise_cons.mpr ⟨hfirst, hm⟩
    · rw [if_neg hk]
      by_cases hlt : key < k
      · rw [if_pos hlt]
        refine List.pairwise_cons.mpr ⟨fun y hy => ?_, h⟩
        rcases List.mem_cons.mp hy with rfl | hy
        · exact hlt
        · exact Trans.trans hlt (hfirst y hy)
      · rw [if_neg hlt]
        refine List.pairwise_cons.mpr ⟨fun y hy => ?_, ih hm⟩
        rcases mem_set hy with rfl | hy
        · by_contra hnot
          exact hk (Std.Trichotomous.trichotomous (r := (· < ·)) k key hnot hlt)
        · exact hfirst y hy

variable [BEq κ] [LawfulBEq κ]

omit [DecidableEq κ] [LT κ] [DecidableLT κ] in
/-- No value is found for a key that is not there. -/
theorem lookup_eq_none {key : κ} {m : List (κ × ν)} (h : ∀ x ∈ m, x.1 ≠ key) : m.lookup key = none :=
  List.lookup_eq_none_iff.mpr fun x hx => by simpa using (h x hx).symm

omit [DecidableLT κ] in
/-- Maps that find the same values have the same entries, in the same order. -/
theorem Sorted.ext [Std.Asymm (α := κ) (· < ·)] : ∀ {m m' : List (κ × ν)}, Sorted m → Sorted m' →
    (∀ key, m.lookup key = m'.lookup key) → m = m'
  | [], [], _, _, _ => rfl
  | [], (k, v) :: m', _, _, heq => by
    have := heq k
    rw [List.lookup_cons_self] at this
    exact absurd this nofun
  | (k, v) :: m, [], _, _, heq => by
    have := heq k
    rw [List.lookup_cons_self] at this
    exact absurd this nofun
  | (k, v) :: m, (k', v') :: m', h, h', heq => by
    have hne : ∀ {a b : κ}, a < b → b ≠ a := fun hab hba => Std.Asymm.asymm (r := (· < ·)) _ _ hab (hba ▸ hab)
    obtain ⟨hfirst, hm⟩ := List.pairwise_cons.mp h
    obtain ⟨hfirst', hm'⟩ := List.pairwise_cons.mp h'
    have hkey : k = k' := by
      by_contra hk
      -- each of the two first keys stands behind the other
      have h1 := heq k
      have h2 := heq k'
      rw [List.lookup_cons_self, List.lookup_cons, (by simpa using hk : (k == k') = false)] at h1
      rw [List.lookup_cons_self, List.lookup_cons, (by simpa using Ne.symm hk : (k' == k) = false)] at h2
      obtain ⟨x, hx, hxk⟩ : ∃ x ∈ m', x.1 = k := by
        by_contra hnone
        rw [lookup_eq_none fun x hx hxk => hnone ⟨x, hx, hxk⟩] at h1
        exact absurd h1 nofun
      obtain ⟨y, hy, hyk⟩ : ∃ y ∈ m, y.1 = k' := by
        by_contra hnone
        rw [lookup_eq_none fun x hx hxk => hnone ⟨x, hx, hxk⟩] at h2
        exact absurd h2.symm nofun
      exact Std.Asymm.asymm (r := (· < ·)) k k' (hyk ▸ hfirst y hy) (hxk ▸ hfirst' x hx)
    subst hkey
    have hvalue := heq k
    rw [List.lookup_cons_self, List.lookup_cons_self] at hvalue
    obtain rfl := Option.some.inj hvalue
    refine congrArg _ (Sorted.ext hm hm' fun key => ?_)
    by_cases hk : key = k
    · subst hk
      rw [lookup_eq_none fun x hx => hne (hfirst x hx), lookup_eq_none fun x hx => hne (hfirst' x hx)]
    · have hrest := heq key
      rwa [List.lookup_cons, List.lookup_cons, (by simpa using hk : (key == k) = false)] at hrest

omit [DecidableLT κ] in
/-- In a map with one entry for each key the last one of a key is the first one. -/
theorem Sorted.lookup_reverse [Std.Irrefl (α := κ) (· < ·)] (key : κ) : ∀ {m : List (κ × ν)}, Sorted m →
    m.reverse.lookup key = m.lookup key
  | [], _ => rfl
  | (k, v) :: m, h => by
    obtain ⟨hfirst, hm⟩ := List.pairwise_cons.mp h
    rw [List.reverse_cons, List.lookup_append, Sorted.lookup_reverse key hm]
    by_cases hk : key = k
    · subst hk
      have hnone : m.lookup key = none :=
        lookup_eq_none fun x hx hxk => Std.Irrefl.irrefl (r := (· < ·)) key (by simpa [hxk] using hfirst x hx)
      rw [hnone, Option.none_or, List.lookup_cons_self, List.lookup_cons_self]
    · have hne : (key == k) = false := by simpa using hk
      rw [List.lookup_cons, List.lookup_cons, hne, List.lookup_nil, Option.or_none]

/-! ## What is found -/

/-- The value given to a key is found. -/
theorem lookup_set_self (key : κ) (value : ν) : ∀ m : List (κ × ν), (set key value m).lookup key = some value
  | [] => by simp [set]
  | (k, v) :: m => by
    rw [set]
    by_cases hk : k = key
    · rw [if_pos hk, List.lookup_cons_self]
    · rw [if_neg hk]
      by_cases hlt : key < k
      · rw [if_pos hlt, List.lookup_cons_self]
      · have hne : (key == k) = false := by simpa using Ne.symm hk
        rw [if_neg hlt, List.lookup_cons, hne]
        exact lookup_set_self key value m

/-- The values of the other keys stay. -/
theorem lookup_set_of_ne {key k' : κ} (value : ν) (h : k' ≠ key) : ∀ m : List (κ × ν),
    (set key value m).lookup k' = m.lookup k'
  | [] => by
    have hne : (k' == key) = false := by simpa using h
    simp [set, List.lookup_cons, hne]
  | (k, v) :: m => by
    have hne : (k' == key) = false := by simpa using h
    rw [set]
    by_cases hk : k = key
    · subst hk
      rw [if_pos rfl]
      simp [List.lookup_cons, hne]
    · rw [if_neg hk]
      by_cases hlt : key < k
      · rw [if_pos hlt]
        simp [List.lookup_cons, hne]
      · rw [if_neg hlt, List.lookup_cons, List.lookup_cons, lookup_set_of_ne value h m]

omit [LT κ] [DecidableLT κ] in
/-- The value of a key that is taken out is not found. -/
theorem lookup_erase_self (key : κ) (m : List (κ × ν)) : (erase key m).lookup key = none :=
  lookup_eq_none fun x hx => by simpa using (List.mem_filter.mp hx).2

omit [LT κ] [DecidableLT κ] in
/-- The values of the other keys stay. -/
theorem lookup_erase_of_ne {key k' : κ} (h : k' ≠ key) : ∀ m : List (κ × ν), (erase key m).lookup k' = m.lookup k'
  | [] => rfl
  | (k, v) :: m => by
    have ih : (List.filter (fun x => x.1 ≠ key) m).lookup k' = m.lookup k' := lookup_erase_of_ne h m
    by_cases hk : k = key
    · subst hk
      have hne : (k' == k) = false := by simpa using h
      rw [erase, List.filter_cons_of_neg (by simp), List.lookup_cons, hne]
      exact ih
    · rw [erase, List.filter_cons_of_pos (by simpa using hk), List.lookup_cons, List.lookup_cons, ih]

/-- After a number of keys have been given values, the last value of a key is found. -/
theorem lookup_foldl_set (key : κ) : ∀ l m : List (κ × ν),
    (l.foldl (fun m x => set x.1 x.2 m) m).lookup key = (l.reverse.lookup key).or (m.lookup key)
  | [], m => rfl
  | (k, v) :: l, m => by
    rw [List.foldl_cons, lookup_foldl_set key l, List.reverse_cons, List.lookup_append, Option.or_assoc]
    refine congrArg _ ?_
    by_cases hk : key = k
    · subst hk
      rw [lookup_set_self, List.lookup_cons_self]
      rfl
    · have hne : (key == k) = false := by simpa using hk
      rw [lookup_set_of_ne v hk, List.lookup_cons, hne]
      rfl

end KeyMap
