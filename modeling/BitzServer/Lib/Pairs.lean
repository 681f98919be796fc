import Mathlib.Data.List.Basic

/-!
# Lists of pairs

A list whose elements come in pairs of neighbours, such as the calls that take and give back a resource, each pair related.
-/

namespace Pairs

variable {α : Type} {R R' : α → α → Prop}

/-- The list is pairs of neighbours, one after the other, and `R` holds of each. -/
inductive Paired (R : α → α → Prop) : List α → Prop
  | nil : Paired R []
  | pair {a b : α} {l : List α} : R a b → Paired R l → Paired R (a :: b :: l)

/-- Pairs behind pairs are pairs. -/
theorem Paired.append {l l' : List α} (h : Paired R l) (h' : Paired R l') : Paired R (l ++ l') := by
  induction h with
  | nil => exact h'
  | pair hab _ ih => exact Paired.pair hab ih

theorem Paired.mono {l : List α} (h : Paired R l) (hR : ∀ a b, R a b → R' a b) : Paired R' l := by
  induction h with
  | nil => exact Paired.nil
  | pair hab _ ih => exact Paired.pair (hR _ _ hab) ih

/-- What holds of both elements of each pair holds of all elements. -/
theorem Paired.forall_mem {p : α → Prop} {l : List α} (h : Paired R l) (hp : ∀ a b, R a b → p a ∧ p b) : ∀ a ∈ l, p a := by
  induction h with
  | nil => exact fun a ha => nomatch ha
  | pair hab _ ih =>
    obtain ⟨ha, hb⟩ := hp _ _ hab
    exact List.forall_mem_cons.mpr ⟨ha, List.forall_mem_cons.mpr ⟨hb, ih⟩⟩

end Pairs
