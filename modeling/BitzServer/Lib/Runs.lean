import Mathlib.Data.List.Basic

/-!
# Runs of a state machine

The states that a machine with a partial step function reaches by steps that meet a guard, and the rule for what holds in all of
them. A machine without a guard is one whose guard is always true.
-/

namespace Runs

variable {σ α : Type}

/-- The states reached from `s₀` by steps that meet the guard `ok`. -/
inductive Reach (step : σ → α → Option σ) (ok : σ → α → Prop) (s₀ : σ) : σ → Prop
  | init : Reach step ok s₀ s₀
  | step {s s' : σ} {a : α} : Reach step ok s₀ s → ok s a → step s a = some s' → Reach step ok s₀ s'

variable {step : σ → α → Option σ} {ok ok' : σ → α → Prop} {s₀ s : σ}

/-- What holds at first and is kept by every step that meets the guard holds in every state reached. -/
theorem Reach.invariant {I : σ → Prop} (h : Reach step ok s₀ s) (hinit : I s₀)
    (hstep : ∀ s a s', I s → ok s a → step s a = some s' → I s') : I s := by
  induction h with
  | init => exact hinit
  | step _ hok hs ih => exact hstep _ _ _ ih hok hs

/-- A weaker guard lets the machine reach more. -/
theorem Reach.mono (h : Reach step ok s₀ s) (hok : ∀ s a, ok s a → ok' s a) : Reach step ok' s₀ s := by
  induction h with
  | init => exact .init
  | step _ hs hstep ih => exact .step ih (hok _ _ hs) hstep

/-- Make the steps of a list, each of them if it meets the guard. -/
def exec (step : σ → α → Option σ) (ok : σ → α → Prop) [∀ s a, Decidable (ok s a)] (s : σ) (as : List α) : Option σ :=
  as.foldlM (fun s a => if ok s a then step s a else none) s

/-- What the steps of a list lead to is reached. -/
theorem reach_of_exec [∀ s a, Decidable (ok s a)] : ∀ {as : List α} {s s' : σ}, Reach step ok s₀ s →
    exec step ok s as = some s' → Reach step ok s₀ s'
  | [], s, s', h, he => by
    obtain rfl := Option.some.inj he
    exact h
  | a :: as, s, s', h, he => by
    rw [exec, List.foldlM_cons, Option.bind_eq_bind, Option.bind_eq_some_iff] at he
    obtain ⟨s1, h1, h2⟩ := he
    by_cases hok : ok s a
    · rw [if_pos hok] at h1
      exact reach_of_exec (.step h hok h1) h2
    · rw [if_neg hok] at h1
      exact absurd h1 (by simp)

end Runs
