import Mathlib.Data.List.DropRight
import Mathlib.Data.List.TakeWhile

/-!
# Fields of a text

A text is cut at separator characters (`List.splitOnP`) and the pieces are trimmed of blanks. The facts here are about any
alphabet, any set of separators and any set of blanks.
-/

namespace Fields

variable {α : Type} {blank : α → Bool}

/-- The text without the blanks at its two ends. -/
def trim (blank : α → Bool) (l : List α) : List α := (l.rdropWhile blank).dropWhile blank

/-- A text with no blank at either end. -/
def Trimmed (blank : α → Bool) (l : List α) : Prop :=
  (∀ c ∈ l.head?, blank c = false) ∧ ∀ c ∈ l.getLast?, blank c = false

/-- A text without blanks is trimmed. -/
theorem trimmed_of_forall {l : List α} (h : ∀ c ∈ l, blank c = false) : Trimmed blank l :=
  ⟨fun c hc => h c (List.mem_of_mem_head? hc), fun c hc => h c (List.mem_of_mem_getLast? hc)⟩

/-- Blanks at the end are dropped from the right. -/
theorem rdropWhile_append_blanks (l : List α) {post : List α} (hpost : ∀ c ∈ post, blank c = true) :
    (l ++ post).rdropWhile blank = l.rdropWhile blank := by
  induction post using List.reverseRecOn with
  | nil => rw [List.append_nil]
  | append_singleton post c ih =>
    rw [← List.append_assoc, List.rdropWhile_concat_pos _ _ _ (hpost c (by simp))]
    exact ih (fun d hd => hpost d (by simp [hd]))

/-- Nothing is dropped from the right of a text whose last character is no blank. -/
theorem rdropWhile_append_trimmed (pre : List α) {core : List α} (hne : core ≠ []) (hc : Trimmed blank core) :
    (pre ++ core).rdropWhile blank = pre ++ core := by
  rw [List.rdropWhile_eq_self_iff]
  intro h
  rw [List.getLast_append_of_ne_nil _ hne]
  simpa using hc.2 _ (List.getLast_mem_getLast? hne)

/-- Blanks at the start are dropped from the left, and nothing else. -/
theorem dropWhile_blanks_append {pre core : List α} (hpre : ∀ c ∈ pre, blank c = true) (hc : Trimmed blank core) :
    (pre ++ core).dropWhile blank = core := by
  rw [List.dropWhile_append_of_pos hpre]
  cases core with
  | nil => rfl
  | cons c l => rw [List.dropWhile_cons_of_neg (by simpa using hc.1 c rfl)]

/-- Trimming a padded text gives the text. -/
theorem trim_padded {pre core post : List α} (hpre : ∀ c ∈ pre, blank c = true) (hpost : ∀ c ∈ post, blank c = true)
    (hc : Trimmed blank core) : trim blank (pre ++ core ++ post) = core := by
  rw [trim, rdropWhile_append_blanks _ hpost]
  by_cases hne : core = []
  · subst hne
    rw [List.append_nil, List.rdropWhile_eq_nil_iff.mpr hpre]
    rfl
  · rw [rdropWhile_append_trimmed pre hne hc, dropWhile_blanks_append hpre hc]

/-- A trimmed text is left as it is. -/
theorem trim_eq_self {l : List α} (h : Trimmed blank l) : trim blank l = l := by
  have hnone : ∀ c ∈ ([] : List α), blank c = true := by simp
  simpa using trim_padded hnone hnone h

theorem trim_sublist (l : List α) : (trim blank l).Sublist l :=
  (List.dropWhile_suffix _).sublist.trans (List.rdropWhile_prefix _ _).sublist

/-- What is left of a text has no blank at either end. -/
theorem trimmed_trim (l : List α) : Trimmed blank (trim blank l) := by
  constructor
  · intro c hc
    have hhead := List.head?_dropWhile_not blank (l.rdropWhile blank)
    rw [trim] at hc
    rw [Option.mem_def.mp hc] at hhead
    simpa using hhead
  · intro c hc
    have hne : trim blank l ≠ [] := fun h => by rw [h] at hc; exact absurd hc nofun
    have hsuffix : trim blank l <:+ l.rdropWhile blank := List.dropWhile_suffix _
    rw [List.getLast?_eq_getLast_of_ne_nil hne, Option.mem_some_iff] at hc
    rw [← hc, hsuffix.getLast hne]
    simpa using List.rdropWhile_last_not blank l (hsuffix.ne_nil hne)

/-- The first field is what stands before the first separator. -/
theorem exists_splitOnP_eq (p : α → Bool) (l : List α) : ∃ fields, l.splitOnP p = l.takeWhile (fun c => !p c) :: fields := by
  have hleft : ∀ c ∈ l.takeWhile (fun c => !p c), p c = false := by
    intro c hc
    simpa using List.mem_takeWhile_imp hc
  have hl := List.takeWhile_append_dropWhile (p := fun c => !p c) (l := l)
  rcases hdrop : l.dropWhile (fun c => !p c) with _ | ⟨c, rest⟩
  · rw [hdrop, List.append_nil] at hl
    refine ⟨[], ?_⟩
    rw [hl] at hleft ⊢
    exact List.splitOnP_eq_singleton hleft
  · have hc : p c = true := by
      have hhead := List.head?_dropWhile_not (fun c => !p c) l
      rw [hdrop] at hhead
      simpa using hhead
    refine ⟨rest.splitOnP p, ?_⟩
    conv_lhs => rw [← hl, hdrop]
    exact List.splitOnP_append_cons_of_forall_mem hleft c hc rest

/-- Cutting at a separator that stands between texts without separators gives back the texts. -/
theorem splitOnP_intercalate {p : α → Bool} {sep : α} (hsep : p sep = true) :
    ∀ {ls : List (List α)}, ls ≠ [] → (∀ l ∈ ls, ∀ c ∈ l, p c = false) → ([sep].intercalate ls).splitOnP p = ls
  | [], h, _ => absurd rfl h
  | [l], _, h => by
    rw [List.intercalate_singleton, List.splitOnP_eq_singleton (h l List.mem_cons_self)]
  | l :: l' :: ls, _, h => by
    rw [List.intercalate_cons_cons, List.append_assoc, List.singleton_append,
      List.splitOnP_append_cons_of_forall_mem (h l List.mem_cons_self) sep hsep,
      splitOnP_intercalate hsep (by simp) (fun x hx => h x (List.mem_cons_of_mem _ hx))]

/-- A text with a separator is cut into more than one piece. -/
theorem two_le_length_splitOnP {p : α → Bool} {sep : α} (hsep : p sep = true) {l : List α} (h : sep ∈ l) :
    2 ≤ (l.splitOnP p).length := by
  obtain ⟨u, v, rfl⟩ := List.append_of_mem h
  rw [List.splitOnP_append_cons u v hsep, List.length_append]
  have hu := List.length_pos_iff.mpr (List.splitOnP_ne_nil p u)
  have hv := List.length_pos_iff.mpr (List.splitOnP_ne_nil p v)
  omega

/-- A text is cut into one more piece than it has separators. -/
theorem length_splitOnP (p : α → Bool) (l : List α) : (l.splitOnP p).length = l.countP p + 1 := by
  induction l with
  | nil => rfl
  | cons c l ih =>
    rw [List.splitOnP_cons_eq_if_modifyHead]
    by_cases hc : p c = true
    · rw [if_pos hc, List.length_cons, ih, List.countP_cons_of_pos hc]
    · rw [if_neg hc, List.length_modifyHead, ih, List.countP_cons_of_neg hc]

/-- No piece has a separator in it. -/
theorem not_of_mem_splitOnP (p : α → Bool) (l : List α) : ∀ piece ∈ l.splitOnP p, ∀ c ∈ piece, p c = false := by
  induction l with
  | nil => simp
  | cons d l ih =>
    intro piece hpiece c hc
    rw [List.splitOnP_cons_eq_if_modifyHead] at hpiece
    by_cases hd : p d = true
    · rw [if_pos hd] at hpiece
      rcases List.mem_cons.mp hpiece with rfl | hpiece
      · nomatch hc
      · exact ih piece hpiece c hc
    · rw [if_neg hd] at hpiece
      obtain ⟨first, rest, hsplit⟩ := List.exists_cons_of_ne_nil (List.splitOnP_ne_nil p l)
      rw [hsplit] at hpiece ih
      rcases List.mem_cons.mp hpiece with rfl | hpiece
      · rcases List.mem_cons.mp hc with rfl | hc
        · simpa using hd
        · exact ih first List.mem_cons_self c hc
      · exact ih piece (List.mem_cons_of_mem _ hpiece) c hc

/-- The pieces with the separators between them: each separator stands behind its piece, nothing behind the last. -/
def interleave (pieces : List (List α)) (seps : List α) : List α :=
  (List.zipWith (· ++ ·) pieces (seps.map (fun c => [c]) ++ [[]])).flatten

/-- A text put together with separators: each piece but the first comes with the separator before it. -/
theorem intercalate_cons_eq (sep t : List α) : ∀ ts : List (List α), sep.intercalate (t :: ts) = t ++ ts.flatMap (sep ++ ·)
  | [] => by simp
  | t' :: ts => by
    rw [List.intercalate_cons_cons, intercalate_cons_eq sep t' ts, List.flatMap_cons]
    simp

/-- Dropping from the right goes on into the first part when nothing of the second is left. -/
theorem rdropWhile_append (u v : List α) :
    (u ++ v).rdropWhile blank = if v.rdropWhile blank = [] then u.rdropWhile blank else u ++ v.rdropWhile blank := by
  simp only [List.rdropWhile, List.reverse_append, List.dropWhile_append, List.isEmpty_iff, List.reverse_eq_nil_iff]
  split
  · rfl
  · simp

/-- Blanks before a text are trimmed. -/
theorem trim_blanks_append {pre : List α} (hpre : ∀ c ∈ pre, blank c = true) (l : List α) :
    trim blank (pre ++ l) = trim blank l := by
  rw [trim, rdropWhile_append, trim]
  by_cases hl : l.rdropWhile blank = []
  · rw [if_pos hl, hl, List.rdropWhile_eq_nil_iff.mpr hpre]
  · rw [if_neg hl, List.dropWhile_append_of_pos hpre]

section Cut

variable {p : α → Bool}

/-- What stands before the first separator lengthens the first piece. -/
theorem splitOnP_append_left {pre : List α} (hpre : ∀ c ∈ pre, p c = false) (l : List α) :
    (pre ++ l).splitOnP p = (l.splitOnP p).modifyHead (pre ++ ·) := by
  induction pre with
  | nil =>
    rw [List.nil_append]
    cases l.splitOnP p <;> rfl
  | cons c pre ih =>
    rw [List.cons_append, List.splitOnP_cons_eq_if_modifyHead, hpre c List.mem_cons_self, if_neg (by simp),
      ih (fun d hd => hpre d (List.mem_cons_of_mem _ hd)), List.modifyHead_modifyHead]
    rfl

/-- Blanks behind the last separator do not change the pieces without the blanks at their ends. -/
theorem map_rdropWhile_splitOnP_append {post : List α} (hsep : ∀ c ∈ post, p c = false) (hpost : ∀ c ∈ post, blank c = true)
    (l : List α) : ((l ++ post).splitOnP p).map (List.rdropWhile blank) = (l.splitOnP p).map (List.rdropWhile blank) := by
  induction l with
  | nil =>
    rw [List.nil_append, List.splitOnP_eq_singleton hsep, List.splitOnP_nil]
    simpa using List.rdropWhile_eq_nil_iff.mpr hpost
  | cons c l ih =>
    rw [List.cons_append, List.splitOnP_cons_eq_if_modifyHead, List.splitOnP_cons_eq_if_modifyHead]
    by_cases hc : p c = true
    · rw [if_pos hc, if_pos hc, List.map_cons, List.map_cons, ih]
    · rw [if_neg hc, if_neg hc]
      rcases h : l.splitOnP p with _ | ⟨x, xs⟩
      · exact absurd h (List.splitOnP_ne_nil p l)
      · rcases h' : (l ++ post).splitOnP p with _ | ⟨y, ys⟩
        · exact absurd h' (List.splitOnP_ne_nil p _)
        · rw [h, h', List.map_cons, List.map_cons] at ih
          obtain ⟨hxy, hrest⟩ := List.cons.inj ih
          rw [List.modifyHead_cons, List.modifyHead_cons, List.map_cons, List.map_cons, hrest]
          have hy : (c :: y).rdropWhile blank = (c :: x).rdropWhile blank := by
            have h1 : ([c] ++ y).rdropWhile blank = _ := rdropWhile_append [c] y
            rw [hxy, ← rdropWhile_append [c] x] at h1
            exact h1
          rw [hy]

/-- Cutting a text and trimming the pieces does not depend on blanks at the ends of the text. -/
theorem map_trim_splitOnP_trim (hsep : ∀ c, blank c = true → p c = false) (l : List α) :
    ((trim blank l).splitOnP p).map (trim blank) = (l.splitOnP p).map (trim blank) := by
  have hleft : ∀ w : List α, ((w.dropWhile blank).splitOnP p).map (trim blank) = (w.splitOnP p).map (trim blank) := by
    intro w
    have hpre : ∀ c ∈ w.takeWhile blank, blank c = true := fun c hc => List.mem_takeWhile_imp hc
    conv_rhs => rw [← List.takeWhile_append_dropWhile (p := blank) (l := w),
      splitOnP_append_left (fun c hc => hsep c (hpre c hc))]
    rcases (w.dropWhile blank).splitOnP p with _ | ⟨x, xs⟩
    · rfl
    · rw [List.modifyHead_cons, List.map_cons, List.map_cons, trim_blanks_append hpre]
  have hright : ((l.rdropWhile blank).splitOnP p).map (List.rdropWhile blank) =
      (l.splitOnP p).map (List.rdropWhile blank) := by
    have hpost : ∀ c ∈ l.rtakeWhile blank, blank c = true := fun c hc => List.mem_rtakeWhile_imp hc
    conv_rhs => rw [← List.rdropWhile_append_rtakeWhile (p := blank) (l := l)]
    exact (map_rdropWhile_splitOnP_append (fun c hc => hsep c (hpost c hc)) hpost _).symm
  have hmap := congrArg (List.map (List.dropWhile blank)) hright
  rw [List.map_map, List.map_map] at hmap
  rw [trim, hleft]
  exact hmap

end Cut

end Fields
